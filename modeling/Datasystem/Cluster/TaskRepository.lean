import Datasystem.Cluster.TopologyTaskCodec

/-! The tables of tasks and ScaleIn markers. A compare-and-swap runs a process
function on the stored value, which may refuse, write or leave the entry. The
janitor deletes in two steps: until a key is removed its value is a tombstone. -/

namespace Datasystem.Cluster

open Common Lib TopologyKeyHelper TopologyRepositoryCodec

/-- The value of a key: a message, or one of the two tombstones of its table. -/
inductive Stored (α : Type)
  | message (value : α)
  | tombstone (second : Bool)
deriving DecidableEq

/-- The value of a task of either kind. -/
inductive TaskPb
  | migrate (pb : MigrateTaskPb)
  | delete (pb : DeleteNodeTaskPb)
deriving DecidableEq

abbrev TaskTable := OrderedMap Bytes (Stored TaskPb)

/-- Keys are made of epoch, source and task, values are operation ids. -/
abbrev MarkerTable := OrderedMap Bytes (Stored Bytes)

inductive TaskProgressOutcome
  | updated
  | alreadyFinished
  | stale
  | unknown
deriving DecidableEq

structure ScaleInMetadataDoneRecord where
  batchEpoch : Nat
  sourceId : Bytes
  taskId : Bytes
  businessOperationId : Bytes
deriving DecidableEq

namespace TaskPb

/-- The value read as a migrate task. What is none parses to no address. -/
def asMigrate : TaskPb → MigrateTaskPb
  | .migrate pb => pb
  | .delete _ => ⟨[], []⟩

def asDelete : TaskPb → DeleteNodeTaskPb
  | .migrate _ => ⟨[], []⟩
  | .delete pb => pb

end TaskPb

namespace TopologyTask

def unfinishedRanges (task : TopologyTask) : List TokenRange :=
  (task.taskRanges.filter fun r => !r.finished).map TopologyTaskRange.range

/-- The task with all its ranges finished. -/
def finish : TopologyTask → TopologyTask
  | .migrate task =>
    .migrate { task with sourceRanges := task.sourceRanges.map ({ · with finished := true }) }
  | .delete task =>
    .delete { task with recoveryRanges := task.recoveryRanges.map ({ · with finished := true }) }

end TopologyTask

namespace TopologyRepository

/-- One compare-and-swap: what the process function makes of the current value. -/
def cas {ν ρ : Type} (table : OrderedMap Bytes ν) (key : Bytes)
    (process : Option ν → Result (Option ν × ρ)) : OrderedMap Bytes ν × Result ρ :=
  match process (table.find? key) with
  | .error e => (table, .error e)
  | .ok (none, r) => (table, .ok r)
  | .ok (some next, r) => (table.insert key next, .ok r)

/-! ## Tasks -/

def encodeTask : TopologyTask → Result TaskPb
  | .migrate task => do
    let pb ← encodeMigrateTask task
    pure (.migrate pb)
  | .delete task => do
    let pb ← encodeDeleteTask task
    pure (.delete pb)

def decodeTask (kind : TopologyTaskKind) (taskId : Bytes) (type : TopologyChangeType) (epoch : Nat)
    (value : TaskPb) : Result TopologyTask :=
  match kind with
  | .migrate => do
    let task ← decodeMigrateTask taskId type epoch value.asMigrate
    pure (.migrate task)
  | .deleteMember => do
    let task ← decodeDeleteTask taskId epoch value.asDelete
    pure (.delete task)

/-- What a process function parses: neither an absent value nor a tombstone is a task. -/
def storedTask : Option (Stored TaskPb) → TaskPb
  | some (.message value) => value
  | _ => .migrate ⟨[], []⟩

def readTask (table : TaskTable) (kind : TopologyTaskKind) (taskId : Bytes)
    (type : TopologyChangeType) (epoch : Nat) : Result TopologyTask := do
  let key ← taskKey taskId
  match table.find? key with
  | none => .error ⟨.kNotFound, "The key does not exist in coordinator."⟩
  | some (.tombstone _) => .error ⟨.kNotFound, "topology task is logically deleted"⟩
  | some (.message value) => decodeTask kind taskId type epoch value

/-- `ApplyFenceToTask`: the task as it is written back, and what became of the fence. -/
def applyFenceToTask (task : TopologyTask) (fence : TopologyExecutionFence) :
    Result (TopologyTask × TaskProgressOutcome) := do
  checkFailReturnStatus (fence.taskKind = task.taskKind) .kInvalid "task kind mismatch"
  checkFailReturnStatus
    (task.taskId = fence.taskId ∧ task.epoch = fence.batchEpoch ∧
      task.executorAddress = fence.executor.address ∧ fence.ranges ≠ [])
    .kInvalid "task execution fence mismatch"
  if task.unfinishedRanges = [] then
    pure (task, if task.ranges = fence.ranges then .alreadyFinished else .stale)
  else if task.unfinishedRanges ≠ fence.ranges then pure (task, .stale)
  else pure (task.finish, .updated)

variable (fence : TopologyExecutionFence)

/-- The process function of `MarkTaskScopeFinished`. -/
def markTaskProcess (current : Option (Stored TaskPb)) :
    Result (Option (Stored TaskPb) × TaskProgressOutcome) := do
  let task ← decodeTask fence.taskKind fence.taskId fence.batchType fence.batchEpoch
    (storedTask current)
  let (next, outcome) ← applyFenceToTask task fence
  if outcome = .updated then do
    let bytes ← encodeTask next
    pure (some (.message bytes), outcome)
  else pure (none, outcome)

/-- What a failed `MarkTaskScopeFinished` makes of the read that follows. -/
def markTaskReadBack (rc : Status) (read : Result TopologyTask) : Result TaskProgressOutcome :=
  match read with
  | .error _ => .error rc
  | .ok observed => do
    let (_, outcome) ← applyFenceToTask observed fence
    if outcome = .alreadyFinished then pure outcome else .error rc

/-! ## ScaleIn markers -/

def maxSourceIdSize : Nat := 128

def scaleInMetadataDonePrefix (batchEpoch : Nat) (sourceId : Bytes) : Result Bytes := do
  checkFailReturnStatus (0 < batchEpoch) .kInvalid "invalid ScaleIn metadata batch epoch"
  checkFailReturnStatus (sourceId ≠ [] ∧ sourceId.length ≤ maxSourceIdSize) .kInvalid
    "invalid ScaleIn metadata source id"
  pure (ascii "e" ++ decimal batchEpoch ++ ascii "/" ++ Hasher.hexEncode sourceId ++ ascii "/")

def scaleInMetadataDoneKey (batchEpoch : Nat) (sourceId taskId : Bytes) : Result Bytes := do
  let head ← scaleInMetadataDonePrefix batchEpoch sourceId
  let key ← taskKey taskId
  pure (head ++ key)

/-- The checks of `MarkScaleInMetadataDone` before the backend is called, with the key. -/
def prepareMark (record : ScaleInMetadataDoneRecord) : Result Bytes := do
  checkFailReturnStatus (record.businessOperationId ≠ []) .kInvalid
    "empty ScaleIn metadata operation id"
  scaleInMetadataDoneKey record.batchEpoch record.sourceId record.taskId

/-- The process function of `MarkScaleInMetadataDone`. -/
def markMetadataProcess (record : ScaleInMetadataDoneRecord) :
    Option (Stored Bytes) → Result (Option (Stored Bytes) × Unit)
  | none => pure (some (.message record.businessOperationId), ())
  | some (.tombstone _) =>
    .error ⟨.kTryAgain, "ScaleIn metadata marker physical deletion is in progress"⟩
  | some (.message current) => do
    checkFailReturnStatus (current = record.businessOperationId) .kInvalid
      "ScaleIn metadata marker has different operation id"
    pure (none, ())

/-- `ResolveExactWrite` on a marker, after a failure other than `K_TRY_AGAIN`. -/
def resolveExactWrite {α : Type} [DecidableEq α] (desired : α) (writeStatus : Status) :
    Result (Stored α) → Result Unit
  | .ok (.message observed) =>
    checkFailReturnStatus (observed = desired) .kInvalid
      "persistent identity has different canonical bytes"
  | .ok (.tombstone _) =>
    .error ⟨.kInvalid, "persistent identity has different canonical bytes"⟩
  | .error _ => .error writeStatus

end TopologyRepository

/-! What is read back from the task tables. A record that can be read can be written
again with more of its ranges finished, if the two checks allow it that only the
encoder makes. -/

open Checked List

namespace TopologyRepository

/-- A stored task has the id and the epoch it is asked for by; a migrate task also the type. -/
structure ReadAs (kind : TopologyTaskKind) (taskId : Bytes) (type : TopologyChangeType)
    (epoch : Nat) (task : TopologyTask) : Prop where
  kinded : task.taskKind = kind
  named : task.taskId = taskId
  current : task.epoch = epoch
  positive : 0 < epoch
  typed : ∀ migrate, task = .migrate migrate → migrate.type = type

variable {kind : TopologyTaskKind} {taskId : Bytes} {type : TopologyChangeType} {epoch : Nat}
  {value : TaskPb} {task : TopologyTask} {old new : List TopologyTaskRange}

theorem readAs_of_decodeTask
    (h : decodeTask kind taskId type epoch value = .ok task) :
    ReadAs kind taskId type epoch task := by
  cases kind with
  | migrate =>
    unfold decodeTask decodeMigrateTask at h
    simp only [bind_eq_ok, check_eq_ok, exists_const, pure_eq_ok] at h
    obtain ⟨_, ⟨_, -, ⟨hpos, -⟩, -, _, -, ⟨_, _⟩, -, rfl⟩, rfl⟩ := h
    refine ⟨rfl, rfl, rfl, hpos, ?_⟩
    intro migrate heq
    cases heq
    rfl
  | deleteMember =>
    unfold decodeTask decodeDeleteTask at h
    simp only [bind_eq_ok, check_eq_ok, exists_const, pure_eq_ok] at h
    obtain ⟨_, ⟨_, -, ⟨hpos, -⟩, -, _, -, ⟨_, _⟩, -, rfl⟩, rfl⟩ := h
    exact ⟨rfl, rfl, rfl, hpos, by simp⟩

theorem readAs_of_readTask {table}
    (h : readTask table kind taskId type epoch = .ok task) :
    ReadAs kind taskId type epoch task := by
  obtain ⟨_, hkey, h⟩ := bind_eq_ok.mp h
  split at h
  · cases h
  · cases h
  · exact readAs_of_decodeTask h

/-! ## Ranges -/

/-- What of a range never changes. -/
def scope (r : TopologyTaskRange) : Bytes × TokenRange := (r.ownerAddress, r.range)

/-- The same ranges, with more of them finished. -/
def FinishesMore (old new : List TopologyTaskRange) : Prop :=
  List.Forall₂ (fun a b => scope b = scope a ∧ (a.finished → b.finished)) old new

theorem FinishesMore.map_scope (h : FinishesMore old new) : new.map scope = old.map scope := by
  induction h with
  | nil => rfl
  | cons hfirst _ ih => rw [map_cons, map_cons, hfirst.1, ih]

theorem rangesApart_congr (h : new.map scope = old.map scope) :
    rangesApart new = rangesApart old := by
  induction old generalizing new with
  | nil =>
    rw [map_eq_nil_iff.mp h]
  | cons a rest ih =>
    obtain ⟨a', _, rfl, ha, hrest⟩ := map_eq_cons_iff.mp h
    have htail := ih hrest
    cases rest with
    | nil =>
      rw [map_eq_nil_iff.mp hrest]
      rfl
    | cons b =>
      obtain ⟨b', _, rfl, hb, -⟩ := map_eq_cons_iff.mp hrest
      have hfirst : a'.range = a.range := congrArg Prod.snd ha
      have hsecond : b'.range = b.range := congrArg Prod.snd hb
      rw [rangesApart, rangesApart, htail, hfirst, hsecond]

theorem isCanonicalRanges_congr {executor} (h : new.map scope = old.map scope) :
    isCanonicalRanges new executor = isCanonicalRanges old executor := by
  have hlen : new.length = old.length := by
    rw [← length_map scope, h, length_map]
  have hempty : new.isEmpty = old.isEmpty := by
    rw [← isEmpty_map (f := scope), h, isEmpty_map]
  have hall : ∀ ranges : List TopologyTaskRange,
      (ranges.all fun r => r.ownerAddress == executor && r.range.lo ≤ r.range.hi) =
        (ranges.map scope).all fun r => r.1 == executor && r.2.lo ≤ r.2.hi := by
    intro ranges
    rw [all_map]
    rfl
  rw [isCanonicalRanges, isCanonicalRanges, hall new, hall old, h, hlen, hempty,
    rangesApart_congr h]

/-- What the decoder makes of a stored range. -/
def decodeRange (r : TokenRangePb) : TopologyTaskRange :=
  ⟨r.ownerAddress, ⟨Fin.ofNat _ r.fromToken, Fin.ofNat _ r.endToken⟩, r.finished⟩

theorem map_decodeRange_encodeRanges (ranges) : (encodeRanges ranges).map decodeRange = ranges := by
  rw [encodeRanges, map_map]
  refine map_id'' (fun r => ?_) ranges
  obtain ⟨_, ⟨_, -⟩, _⟩ := r
  simp [decodeRange]

theorem decodeRanges_eq_ok {input} {ranges} {executor} :
    decodeRanges input = .ok (ranges, executor) ↔
      input.map decodeRange = ranges ∧ isCanonicalRanges ranges executor := by
  have hlen : (input.map decodeRange).length = input.length := length_map _
  have hfun : (fun r : TokenRangePb => (⟨r.ownerAddress, ⟨Fin.ofNat _ r.fromToken,
      Fin.ofNat _ r.endToken⟩, r.finished⟩ : TopologyTaskRange)) = decodeRange := rfl
  unfold decodeRanges
  simp only [bind_eq_ok, check_eq_ok, exists_const, hfun]
  cases hdecode : input.map decodeRange with
  | nil =>
    refine ⟨fun h => (by cases h.2), fun h => ?_⟩
    rw [← h.1] at h
    cases h.2
  | cons first rest =>
    simp only [bind_eq_ok, check_eq_ok, exists_const, pure_eq_ok, Prod.mk.injEq]
    constructor
    · rintro ⟨-, hcanonical, hranges, hexecutor⟩
      rw [hranges, hexecutor] at hcanonical
      exact ⟨hranges, hcanonical⟩
    · rintro ⟨rfl, hcanonical⟩
      have hparts := hcanonical
      simp only [isCanonicalRanges, Bool.and_eq_true, all_cons, decide_eq_true_eq] at hparts
      obtain ⟨⟨⟨⟨-, hcount⟩, -⟩, ⟨howner, -⟩, -⟩, -⟩ := hparts
      have heq : first.ownerAddress = executor := eq_of_beq howner
      refine ⟨⟨?_, ?_⟩, heq ▸ hcanonical, rfl, heq⟩
      · rintro rfl
        cases hdecode
      · rw [hdecode] at hlen
        omega

/-! ## Tasks -/

/-- The letter of the kind in the id of a task. -/
def kindLetter : TopologyTask → String
  | .migrate _ => "m"
  | .delete _ => "d"

/-- The other member of a task: the target of a migration, or the member that failed. -/
def peerAddress : TopologyTask → Bytes
  | .migrate task => task.targetAddress
  | .delete task => task.failedAddress

def withRanges (task : TopologyTask) (ranges : List TopologyTaskRange) : TopologyTask :=
  match task with
  | .migrate task => .migrate { task with sourceRanges := ranges }
  | .delete task => .delete { task with recoveryRanges := ranges }

/-- The message of a task. -/
def taskPb : TopologyTask → TaskPb
  | .migrate task => .migrate ⟨task.targetAddress, encodeRanges task.sourceRanges⟩
  | .delete task => .delete ⟨task.failedAddress, encodeRanges task.recoveryRanges⟩

def byteSize : TaskPb → Nat
  | .migrate pb => pb.byteSize
  | .delete pb => pb.byteSize

/-- What encoder and decoder both check. -/
structure WellFormed (task : TopologyTask) : Prop where
  context : validateTaskContext task.taskId (kindLetter task) task.epoch = .ok ()
  positive : 0 < task.epoch
  peer : validateMemberAddress (peerAddress task) = .ok ()
  canonical : isCanonicalRanges task.taskRanges task.executorAddress

theorem ne_nil_of_validateMemberAddress {address}
    (h : validateMemberAddress address = .ok ()) : address ≠ [] := by
  rintro rfl
  cases h

theorem encodeTask_eq_ok : encodeTask task = .ok value ↔
      WellFormed task ∧ validateMemberAddress task.executorAddress = .ok () ∧
        byteSize (taskPb task) ≤ maxValueBytes ∧ taskPb task = value := by
  cases task with
  | migrate | delete =>
    simp only [encodeTask, encodeMigrateTask, encodeDeleteTask, serializeCanonical, bind_eq_ok,
      check_eq_ok, exists_const, pure_eq_ok]
    constructor
    · rintro ⟨_, ⟨_, hcontext, _, hpeer, _, hexecutor, ⟨hpos, hranges⟩, hsize, rfl⟩, rfl⟩
      exact ⟨⟨hcontext, hpos, hpeer, hranges⟩, hexecutor, hsize, rfl⟩
    · rintro ⟨h, hexecutor, hsize, rfl⟩
      exact ⟨_, ⟨(), h.context, (), h.peer, (), hexecutor, ⟨h.positive, h.canonical⟩, hsize, rfl⟩,
        rfl⟩

theorem wellFormed_of_decodeTask
    (h : decodeTask kind taskId type epoch value = .ok task) : WellFormed task := by
  cases kind with
  | migrate | deleteMember =>
    simp only [decodeTask, decodeMigrateTask, decodeDeleteTask, bind_eq_ok, check_eq_ok,
      exists_const, pure_eq_ok] at h
    obtain ⟨_, ⟨_, hcontext, ⟨hpos, -⟩, -, _, hpeer, ⟨_, _⟩, hranges, rfl⟩, rfl⟩ := h
    exact ⟨hcontext, hpos, hpeer, (decodeRanges_eq_ok.mp hranges).2⟩

theorem decodeTask_taskPb (hread : ReadAs kind taskId type epoch task)
    (h : WellFormed task) (hsize : byteSize (taskPb task) ≤ maxValueBytes) :
    decodeTask kind taskId type epoch (taskPb task) = .ok task := by
  obtain ⟨rfl, rfl, rfl, -, htype⟩ := hread
  have hrange := h.canonical
  cases task with
  | migrate task =>
    obtain rfl := htype task rfl
    show decodeTask .migrate task.taskId task.type task.epoch (.migrate _) = _
    simp only [decodeTask, decodeMigrateTask, bind_eq_ok, check_eq_ok, exists_const, pure_eq_ok]
    exact ⟨_, ⟨(), h.context, ⟨h.positive, hsize⟩, ne_nil_of_validateMemberAddress h.peer,
      (), h.peer,
      (task.sourceRanges, task.executorAddress),
      decodeRanges_eq_ok.mpr ⟨map_decodeRange_encodeRanges _, hrange⟩, rfl⟩, rfl⟩
  | delete task =>
    show decodeTask .deleteMember task.taskId type task.epoch (.delete _) = _
    simp only [decodeTask, decodeDeleteTask, bind_eq_ok, check_eq_ok, exists_const, pure_eq_ok]
    exact ⟨_, ⟨(), h.context, ⟨h.positive, hsize⟩, ne_nil_of_validateMemberAddress h.peer,
      (), h.peer,
      (task.recoveryRanges, task.executorAddress),
      decodeRanges_eq_ok.mpr ⟨map_decodeRange_encodeRanges _, hrange⟩, rfl⟩, rfl⟩

/-! ## Progress -/

theorem ReadAs.withRanges (h : ReadAs kind taskId type epoch task) (ranges) :
    ReadAs kind taskId type epoch (withRanges task ranges) := by
  cases task with
  | migrate task =>
    refine ⟨h.kinded, h.named, h.current, h.positive, fun migrate heq => ?_⟩
    cases heq
    exact h.typed task rfl
  | delete => exact ⟨h.kinded, h.named, h.current, h.positive, nofun⟩

theorem WellFormed.withRanges (h : WellFormed task)
    {ranges} (hscope : ranges.map scope = task.taskRanges.map scope) :
    WellFormed (withRanges task ranges) := by
  have hcanonical : isCanonicalRanges ranges task.executorAddress :=
    (isCanonicalRanges_congr hscope).trans h.canonical
  cases task with
  | migrate | delete => exact ⟨h.context, h.positive, h.peer, hcanonical⟩

/-- **Records stay writable.** A task that was read, with more of its ranges finished, is written
and read back exactly if its executor has a valid address and the message fits. -/
theorem decoded_task_writable {kind : TopologyTaskKind} {taskId : Bytes} {type : TopologyChangeType}
    {epoch : Nat} {value : TaskPb} {task : TopologyTask}
    (h : decodeTask kind taskId type epoch value = .ok task)
    {ranges : List TopologyTaskRange} (hmore : FinishesMore task.taskRanges ranges) :
    (∃ value', encodeTask (withRanges task ranges) = .ok value' ∧
      decodeTask kind taskId type epoch value' = .ok (withRanges task ranges)) ↔
    validateMemberAddress task.executorAddress = .ok () ∧
      byteSize (taskPb (withRanges task ranges)) ≤ maxValueBytes := by
  have hread := (readAs_of_decodeTask h).withRanges ranges
  have hform := (wellFormed_of_decodeTask h).withRanges hmore.map_scope
  have hsame : (withRanges task ranges).executorAddress = task.executorAddress := by
    cases task <;> rfl
  simp only [encodeTask_eq_ok, hsame]
  constructor
  · rintro ⟨_, ⟨-, hexecutor, hsize, -⟩, -⟩
    exact ⟨hexecutor, hsize⟩
  · rintro ⟨hexecutor, hsize⟩
    exact ⟨_, ⟨hform, hexecutor, hsize, rfl⟩, decodeTask_taskPb hread hform hsize⟩

theorem finish_eq_withRanges (task) :
    ∃ ranges, FinishesMore task.taskRanges ranges ∧ withRanges task ranges = task.finish := by
  have hall : ∀ old : List TopologyTaskRange,
      FinishesMore old (old.map ({ · with finished := true })) := by
    intro old
    induction old with
    | nil => exact .nil
    | cons _ _ ih => exact .cons ⟨rfl, fun _ => rfl⟩ ih
  cases task with
  | migrate | delete => exact ⟨_, hall _, rfl⟩

/-- A record of one range, with the given owner. -/
def sampleRecord (owner : Bytes) : TaskPb :=
  .migrate ⟨ascii "10.0.0.2:31501", [⟨owner, 101, 200, false⟩]⟩

def sampleRecordId : Bytes := ascii "m-e5-" ++ List.replicate 32 48

/-- What the record reads as. -/
def sampleTask (owner : Bytes) : TopologyTask :=
  .migrate ⟨sampleRecordId, .scaleOut, 5, owner, ascii "10.0.0.2:31501",
    [⟨owner, ⟨101, 200⟩, false⟩]⟩

theorem sample_record_writable : ∃ task value', decodeTask .migrate sampleRecordId .scaleOut 5
        (sampleRecord (ascii "10.0.0.1:31501")) = .ok task ∧
      encodeTask task.finish = .ok value' ∧
      decodeTask .migrate sampleRecordId .scaleOut 5 value' = .ok task.finish := by
  have hdecode : decodeTask .migrate sampleRecordId .scaleOut 5
      (sampleRecord (ascii "10.0.0.1:31501")) = .ok (sampleTask (ascii "10.0.0.1:31501")) := by
    decide +kernel
  obtain ⟨_, hmore, hfinish⟩ := finish_eq_withRanges (sampleTask (ascii "10.0.0.1:31501"))
  have hsize : byteSize (taskPb (sampleTask (ascii "10.0.0.1:31501")).finish) ≤ maxValueBytes := by
    decide +kernel
  obtain ⟨value', hencode, hback⟩ := (decoded_task_writable hdecode hmore).mpr
    ⟨by decide +kernel, hfinish ▸ hsize⟩
  rw [hfinish] at hencode hback
  exact ⟨_, value', hdecode, hencode, hback⟩

/-- Only the encoder looks at the address of the executor: a record whose owner is no endpoint is
read but can never be marked finished. -/
theorem foreign_owner_not_writable :
    ∃ task, decodeTask .migrate sampleRecordId .scaleOut 5 (sampleRecord (ascii "x")) = .ok task ∧
      encodeTask task.finish = .error ⟨.kInvalid, "invalid canonical topology member address"⟩ :=
  ⟨sampleTask (ascii "x"), by decide +kernel, by decide +kernel⟩

end TopologyRepository

end Datasystem.Cluster
