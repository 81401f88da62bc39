import Datasystem.Cluster.TaskLimits

/-! Derived tasks and notifies in the store. Ids, addresses and ranges of a derived
task are what its encoder asks for; what remains is the size of the encoding, which
grows with the addresses, and the number of tasks that one notify refers to. -/

namespace Datasystem.Cluster.TopologyTaskMaterializer

open Common HashRingToken Protobuf Lib Checked Sorting Spans Chunks HashAlgorithm List TopologyTask
open TopologyPlanBuilder TopologyKeyHelper TopologyRepositoryCodec

/-! ## Ids -/

theorem ne_dash_of_mem_decimal {n : Nat} {b} (h : b ∈ decimal n) : b ≠ dash := by
  intro heq
  have hdigit := (mem_decimal h).1
  rw [heq] at hdigit
  exact absurd hdigit (by decide)

variable {epoch : Nat} {ranges : List TokenRange} {batch : ActiveBatch} {ids : List Bytes}

theorem isValidTaskId_append {kind digest}
    (hkind : kind = ascii "m-e" ∨ kind = ascii "d-e") (hepoch : 0 < epoch)
    (hlen : digest.length = taskDigestSize) (hhex : ∀ b ∈ digest, Hasher.isLowerHex b) :
    isValidTaskId (kind ++ decimal epoch ++ ascii "-" ++ digest) := by
  have hthree : kind.length = taskKindPrefixSize := by rcases hkind with rfl | rfl <;> rfl
  have hrest : kind ++ decimal epoch ++ ascii "-" ++ digest =
      kind ++ (decimal epoch ++ dash :: digest) := by
    simp only [append_assoc]
    rfl
  have hne : ∀ b ∈ decimal epoch, decide (b ≠ dash) = true :=
    fun b hb => decide_eq_true (ne_dash_of_mem_decimal hb)
  have htake : (decimal epoch ++ dash :: digest).takeWhile (· ≠ dash) = decimal epoch := by
    rw [takeWhile_append_of_pos hne]
    simp
  have hdrop : (decimal epoch ++ dash :: digest).dropWhile (· ≠ dash) = dash :: digest := by
    rw [dropWhile_append_of_pos hne]
    simp
  have hpos := length_pos_iff.mpr (decimal_ne_nil epoch)
  have hlong : ¬(kind ++ (decimal epoch ++ dash :: digest)).length < minTaskIdSize := by
    simp only [length_append, length_cons, hthree, hlen, minTaskIdSize]
    omega
  have hkinds : ¬(kind ≠ ascii "m-e" ∧ kind ≠ ascii "d-e") := by
    rcases hkind with rfl | rfl <;> simp
  have hdigit : (decimal epoch).all isDigit = true := by
    refine all_eq_true.mpr fun b hb => ?_
    simpa [isDigit] using mem_decimal hb
  have hfirst := head_decimal hepoch
  rw [hrest, isValidTaskId, if_neg hlong, ← hthree, take_left, if_neg hkinds, drop_left]
  simp only [htake, hdrop, hdigit, hlen, all_eq_true.mpr hhex]
  simpa using hfirst

theorem validateTaskId_eq_ok {taskId} : validateTaskId taskId = .ok () ↔ isValidTaskId taskId := by
  simp [validateTaskId, taskKey, check_eq_ok]

theorem isValidTaskId_buildTaskId (sha256) {type} (hepoch : 0 < epoch) {source target} :
    isValidTaskId (buildTaskId sha256 (changeTask type epoch source target ranges)) := by
  have hlen : ∀ seed, (digestPrefix sha256 seed).length = taskDigestSize :=
    length_digestPrefix sha256
  have hhex : ∀ seed, ∀ b ∈ digestPrefix sha256 seed, Hasher.isLowerHex b :=
    fun seed b hb => Hasher.isLowerHex_of_mem_hexEncode (mem_of_mem_take hb)
  cases type with
  | scaleOut | scaleIn => exact isValidTaskId_append (.inl rfl) hepoch (hlen _) (hhex _)
  | failure => exact isValidTaskId_append (.inr rfl) hepoch (hlen _) (hhex _)

/-- Ids of a batch are at most 55 bytes long. -/
def maxTaskIdBytes : Nat := 55

theorem length_buildTaskId_le (sha256) {type} (hepoch : epoch ≤ int64Max) {source target} :
    (buildTaskId sha256 (changeTask type epoch source target ranges)).length ≤ maxTaskIdBytes := by
  have hdigest : (decimal epoch).length ≤ 19 :=
    length_decimal_le (by decide) (lt_of_le_of_lt hepoch (by decide))
  have hhead : (taskIdHead (changeTask type epoch source target ranges)).length ≤ 23 := by
    cases type <;> simp [changeTask, taskIdHead, ascii] <;> omega
  rw [buildTaskId, length_append, length_digestPrefix, idHashChars, maxTaskIdBytes]
  omega

/-! ## Addresses and ranges -/

theorem validateMemberAddress_of_canonical {address} (h : CanonicalAddress address) :
    validateMemberAddress address = .ok () := by
  have hvalid : TopologyKeyHelper.validateAddress address = .ok () := by
    rw [TopologyKeyHelper.validateAddress, check_of h.1, ok_bind, check_of h.2.2]
  rw [validateMemberAddress, notifyKey, hvalid]
  rfl

theorem rangesApart_map {executor} (h : Ascending ranges) :
    rangesApart (ranges.map (⟨executor, ·, false⟩)) := by
  induction ranges with
  | nil => rfl
  | cons a rest ih =>
    have hrest := ih (h.sublist (sublist_cons_self a rest))
    cases rest with
    | nil => rfl
    | cons b =>
      have hlt : a.hi < b.lo := (pairwise_cons.mp h.apart).1 b mem_cons_self
      simp only [map_cons, rangesApart, decide_eq_true hlt, Bool.true_and]
      exact hrest

/-- A piece of a change is a canonical list of ranges of its executor. -/
theorem isCanonicalRanges_map {executor}
    (he : executor ≠ []) (hne : ranges ≠ []) (hlen : ranges.length ≤ maxTopologyTaskRanges)
    (h : Ascending ranges) :
    isCanonicalRanges (ranges.map (⟨executor, ·, false⟩)) executor := by
  have hall : (ranges.map fun r => (⟨executor, r, false⟩ : TopologyTaskRange)).all (fun r =>
      r.ownerAddress == executor && r.range.lo ≤ r.range.hi) = true := by
    refine all_eq_true.mpr (forall_mem_map.mpr fun r hr => ?_)
    simpa using h.nonempty r hr
  simp [isCanonicalRanges, hall, rangesApart_map h, hne, he, hlen]

/-! ## Tasks -/

/-- The encoder of its kind accepts the task. -/
def TaskAccepted : TopologyTask → Prop
  | .migrate task => ∃ pb, encodeMigrateTask task = .ok pb
  | .delete task => ∃ pb, encodeDeleteTask task = .ok pb

/-- The size of the stored task. -/
def taskBytes : TopologyTask → Nat
  | .migrate task => MigrateTaskPb.byteSize ⟨task.targetAddress, encodeRanges task.sourceRanges⟩
  | .delete task => DeleteNodeTaskPb.byteSize ⟨task.failedAddress, encodeRanges task.recoveryRanges⟩

/-- Addresses of executors up to which tasks of any number of ranges can be stored. -/
def safeAddressBytes : Nat := 1005

theorem validateTaskContext_of {taskId digest} {kind} (hvalid : isValidTaskId taskId)
    (h : ascii kind ++ ascii "-e" ++ decimal epoch ++ ascii "-" ++ digest = taskId) :
    validateTaskContext taskId kind epoch = .ok () := by
  have hstarts : (ascii kind ++ ascii "-e" ++ decimal epoch ++ ascii "-").isPrefixOf taskId :=
    isPrefixOf_iff_prefix.mpr ⟨digest, h⟩
  rw [validateTaskContext, validateTaskId_eq_ok.mpr hvalid, ok_bind, check_of hstarts]

section

variable {type : TopologyChangeType} {epoch : Nat} {source target : Bytes}
  {ranges : List TokenRange}

/-- A piece of a change between canonical addresses is stored unless it is too large. -/
theorem taskAccepted_iff (sha256) (hepoch : 0 < epoch) (hs : CanonicalAddress source)
    (ht : CanonicalAddress target) (hne : ranges ≠ [])
    (hlen : ranges.length ≤ maxTopologyTaskRanges) (hascending : Ascending ranges) :
    TaskAccepted (nameTask sha256 (changeTask type epoch source target ranges)) ↔
      taskBytes (nameTask sha256 (changeTask type epoch source target ranges)) ≤ maxValueBytes := by
  have hid : isValidTaskId (buildTaskId sha256 (changeTask type epoch source target ranges)) :=
    isValidTaskId_buildTaskId sha256 hepoch
  have hsource := validateMemberAddress_of_canonical hs
  have htarget := validateMemberAddress_of_canonical ht
  have hranges : ∀ executor : Bytes, executor ≠ [] →
      isCanonicalRanges (ranges.map (⟨executor, ·, false⟩)) executor :=
    fun executor he => isCanonicalRanges_map he hne hlen hascending
  cases type with
  | scaleOut | scaleIn =>
    have hcontext : validateTaskContext _ "m" epoch = .ok () := validateTaskContext_of hid rfl
    simp only [changeTask, sortRanges_of_ascending hascending] at hcontext
    simp only [nameTask, changeTask, withTaskId, TaskAccepted, taskBytes,
      encodeMigrateTask, sortRanges_of_ascending hascending, hcontext, hsource, htarget, ok_bind,
      check_of (And.intro hepoch (hranges source hs.1)), serializeCanonical,
      bind_eq_ok, check_eq_ok, pure_eq_ok, exists_const, exists_and_left,
      exists_eq', and_true]
  | failure =>
    have hcontext : validateTaskContext _ "d" epoch = .ok () := validateTaskContext_of hid rfl
    simp only [changeTask, sortRanges_of_ascending hascending] at hcontext
    simp only [nameTask, changeTask, withTaskId, TaskAccepted, taskBytes,
      encodeDeleteTask, sortRanges_of_ascending hascending, hcontext, hsource, htarget, ok_bind,
      check_of (And.intro hepoch (hranges target ht.1)), serializeCanonical,
      bind_eq_ok, check_eq_ok, pure_eq_ok, exists_const, exists_and_left,
      exists_eq', and_true]

theorem rangesBytes_le {executor} {b : Nat} (he : executor.length ≤ b)
    (hb : b ≤ maxMemberAddressBytes) (ranges : List TokenRange) :
    repeatedField ((encodeRanges (ranges.map (⟨executor, ·, false⟩))).map TokenRangePb.byteSize) ≤
      ranges.length * (b + 18) := by
  rw [maxMemberAddressBytes] at hb
  have hrange : ∀ n ∈ (encodeRanges (ranges.map (⟨executor, ·, false⟩))).map TokenRangePb.byteSize,
      n ≤ b + 15 := by
    intro n hn
    simp only [encodeRanges, map_map, mem_map, Function.comp_def] at hn
    obtain ⟨r, -, rfl⟩ := hn
    have howner := stringField_le he (by omega)
    have hlo : uintField r.lo.val ≤ 1 + 5 :=
      uintField_le (by decide) (lt_of_lt_of_le r.lo.isLt (by decide))
    have hhi : uintField r.hi.val ≤ 1 + 5 :=
      uintField_le (by decide) (lt_of_lt_of_le r.hi.isLt (by decide))
    simp only [TokenRangePb.byteSize, boolField, Bool.false_eq_true, if_false]
    omega
  have hle := repeatedField_le hrange (by omega)
  simpa [encodeRanges] using hle

/-- Without those of its other fields, the bytes of the owner are too many. -/
theorem lt_rangesBytes {executor} (he : maxMemberAddressBytes ≤ executor.length)
    (ranges : List TokenRange) (hlen : ranges.length = maxTopologyTaskRanges) :
    maxValueBytes < repeatedField
      ((encodeRanges (ranges.map (⟨executor, ·, false⟩))).map TokenRangePb.byteSize) := by
  have hrange : ∀ n ∈ ((encodeRanges (ranges.map (⟨executor, ·, false⟩))).map
      TokenRangePb.byteSize).map lengthDelimited, maxMemberAddressBytes + 1 ≤ n := by
    intro n hn
    simp only [encodeRanges, map_map, mem_map, Function.comp_def] at hn
    obtain ⟨r, -, rfl⟩ := hn
    have howner : executor.length ≤ stringField executor := le_stringField executor
    simp only [TokenRangePb.byteSize, lengthDelimited]
    omega
  have hsum := card_nsmul_le_sum _ _ hrange
  simp only [encodeRanges, length_map, hlen, smul_eq_mul] at hsum
  exact lt_of_lt_of_le (by decide) hsum

theorem not_taskAccepted (sha256) (hepoch : 0 < epoch) (hs : CanonicalAddress source)
    (ht : CanonicalAddress target) (hlen : ranges.length = maxTopologyTaskRanges)
    (hascending : Ascending ranges) (hlong : maxMemberAddressBytes ≤ source.length) :
    ¬TaskAccepted (nameTask sha256 (changeTask .scaleOut epoch source target ranges)) := by
  have hne : ranges ≠ [] := ne_nil_of_length_pos (hlen ▸ maxTopologyTaskRanges_pos)
  rw [taskAccepted_iff sha256 hepoch hs ht hne hlen.le hascending]
  simp only [nameTask, changeTask, withTaskId, taskBytes, sortRanges_of_ascending hascending,
    not_le]
  exact Nat.lt_add_left _ (lt_rangesBytes hlong ranges hlen)

/-- Tasks whose executor has a short address are small enough. -/
theorem taskBytes_le (sha256 : Sha256) (hs : CanonicalAddress source)
    (ht : CanonicalAddress target) (hlen : ranges.length ≤ maxTopologyTaskRanges)
    (hascending : Ascending ranges)
    (hexec : (nameTask sha256 (changeTask type epoch source target ranges)).executorAddress.length ≤
      safeAddressBytes) :
    taskBytes (nameTask sha256 (changeTask type epoch source target ranges)) ≤ maxValueBytes := by
  have hbytes : ∀ executor peer : Bytes, executor.length ≤ safeAddressBytes →
      CanonicalAddress peer → stringField peer + repeatedField
        ((encodeRanges (ranges.map (⟨executor, ·, false⟩))).map TokenRangePb.byteSize) ≤
          maxValueBytes := by
    intro executor peer he hp
    have hpeer := stringField_le hp.2.1 (by decide)
    have hsum := rangesBytes_le he (by decide) ranges
    have hmul : ranges.length * (safeAddressBytes + 18) ≤
        maxTopologyTaskRanges * (safeAddressBytes + 18) := Nat.mul_le_mul_right _ hlen
    have hlimit : maxMemberAddressBytes + 3 + maxTopologyTaskRanges * (safeAddressBytes + 18) ≤
        maxValueBytes := by decide
    omega
  cases type with
  | scaleOut | scaleIn =>
    simp only [nameTask, changeTask, withTaskId, taskBytes, sortRanges_of_ascending hascending]
    exact hbytes source target hexec ht
  | failure =>
    simp only [nameTask, changeTask, withTaskId, taskBytes, sortRanges_of_ascending hascending]
    exact hbytes target source hexec hs

end

/-! ## Notifies -/

/-- The notify of an executor lists the ids of its tasks in task order. -/
theorem find?_foldl_addNotify (batch : ActiveBatch) (tasks : List TopologyTask)
    (notifies : OrderedMap Bytes TopologyTaskNotify) (executor : Bytes) :
    (tasks.foldl (addNotify batch) notifies).find? executor =
      if (tasks.filter fun task => task.executorAddress = executor) = [] then
        notifies.find? executor
      else
        let notify := (notifies.find? executor).getD {}
        some { notify with
          activeBatch := some batch
          taskIds := notify.taskIds ++
            (tasks.filter fun task => task.executorAddress = executor).map taskId } := by
  induction tasks generalizing notifies with
  | nil => rfl
  | cons task rest ih =>
    rw [foldl_cons, ih, addNotify, OrderedMap.find?_alter, filter_cons]
    by_cases he : task.executorAddress = executor
    · rw [if_pos (decide_eq_true he), if_pos he.symm, he]
      by_cases hrest : (rest.filter fun task => task.executorAddress = executor) = []
      · simp [hrest]
      · simp [hrest]
    · have hother : ¬executor = task.executorAddress := fun h => he h.symm
      simp only [hother, he, decide_false, if_false, Bool.false_eq_true]

theorem encodeTaskIds_of
    (h : ∀ id ∈ ids, isValidTaskId id ∧ (taskIdPrefix batch.type).isPrefixOf id) :
    encodeTaskIds (some batch) ids = .ok ids := by
  induction ids with
  | nil => rfl
  | cons id _ ih =>
    obtain ⟨⟨hvalid, hkind⟩, hrest⟩ := forall_mem_cons.mp h
    have hbatch : ∃ b ∈ some batch, (taskIdPrefix b.type).isPrefixOf id := ⟨batch, rfl, hkind⟩
    rw [encodeTaskIds, validateTaskId_eq_ok.mpr hvalid, ok_bind, check_of hbatch, ok_bind, ih hrest]
    rfl

/-- The stored form of a notify of a batch. -/
def batchNotifyPb (batch : ActiveBatch) (ids : List Bytes) : TaskNotifyPb :=
  ⟨some ⟨toPbType batch.type, batch.epoch⟩, ids, .empty⟩

theorem batchNotifyPb_byteSize_le (hepoch : batch.epoch ≤ int64Max)
    (hcount : ids.length ≤ maxNotifyTaskRefs) (hids : ∀ id ∈ ids, id.length ≤ maxTaskIdBytes) :
    (batchNotifyPb batch ids).byteSize ≤ maxNotifyValueBytes := by
  have htype : uintField (toPbType batch.type) ≤ 1 + 1 := by cases batch.type <;> decide
  have hnum : uintField batch.epoch ≤ 1 + 9 :=
    uintField_le (by decide) (lt_of_le_of_lt hepoch (by decide))
  have hsize : ChangeBatchPb.byteSize ⟨toPbType batch.type, batch.epoch⟩ ≤ 12 := by
    dsimp only [ChangeBatchPb.byteSize]
    omega
  have hbatch := lengthDelimited_le hsize (by decide)
  have hlist := repeatedField_le (forall_mem_map.mpr hids) (by decide)
  have hmul : (ids.map List.length).length * (maxTaskIdBytes + 3) ≤
      maxNotifyTaskRefs * (maxTaskIdBytes + 3) := by
    rw [length_map]
    exact Nat.mul_le_mul_right _ hcount
  have hlimit : 15 + maxNotifyTaskRefs * (maxTaskIdBytes + 3) ≤ maxNotifyValueBytes := by decide
  have hempty : (OrderedMap.empty : OrderedMap Bytes Int).entries = [] := rfl
  simp only [TaskNotifyPb.byteSize, batchNotifyPb, Option.elim_some, hempty, map_nil]
  have hnone : repeatedField [] = 0 := rfl
  omega

theorem encodeNotify_tooMany {notify} (h : maxNotifyTaskRefs < notify.taskIds.length) :
    encodeNotify notify = .error ⟨.kInvalid, "invalid notify task ids"⟩ := by
  have hbad : ¬(notify.taskIds.Pairwise (· ≤ ·) ∧ notify.taskIds.IsChain (· ≠ ·) ∧
      notify.taskIds.length ≤ maxNotifyTaskRefs) := fun hok => absurd hok.2.2 (Nat.not_le_of_lt h)
  rw [encodeNotify, check_of_not hbad, error_bind]

/-- A notify with few and ordered ids of tasks of its batch is stored. -/
theorem encodeNotify_batch (hepoch : 0 < batch.epoch ∧ batch.epoch ≤ int64Max)
    (hsorted : ids.Pairwise (· ≤ ·)) (hnodup : ids.Nodup) (hcount : ids.length ≤ maxNotifyTaskRefs)
    (hids : ∀ id ∈ ids, isValidTaskId id ∧ (taskIdPrefix batch.type).isPrefixOf id ∧
      id.length ≤ maxTaskIdBytes) :
    encodeNotify { activeBatch := some batch, taskIds := ids } = .ok (batchNotifyPb batch ids) := by
  have hsize := batchNotifyPb_byteSize_le hepoch.2 hcount fun id hid => (hids id hid).2.2
  have hids : encodeTaskIds (some batch) ids = .ok ids :=
    encodeTaskIds_of fun id hid => ⟨(hids id hid).1, (hids id hid).2.1⟩
  have hbatch : encodeNotifyBatch (some batch) = .ok (some ⟨toPbType batch.type, batch.epoch⟩) := by
    rw [encodeNotifyBatch, encodeActiveBatch, check_of hepoch.1]
    rfl
  exact encodeNotify_eq_ok.mpr
    ⟨⟨⟨hsorted, hnodup.isChain, hcount⟩, .inl (Option.some_ne_none batch),
    hbatch, hids⟩, rfl, rfl, hsize⟩

/-! ## Everything that is derived -/

section

variable {latest : TopologySnapshot} {batch : ActiveBatch} {plan : TopologyPlan}

variable {sha256 : Sha256} {task : TopologyTask} {executor : Bytes}

section

variable (hb : latest.state.activeBatch = some batch) (h : rebuildPlan latest = .ok plan)
  (htask : task ∈ derivedTasks sha256 batch plan.ownerChanges)

include hb h htask

/-- The executor that an id is given to, and the piece of a change that it stands for. -/
theorem exists_piece :
    ∃ source target ranges, CanonicalAddress source ∧ CanonicalAddress target ∧ ranges ≠ [] ∧
      ranges.length ≤ maxTopologyTaskRanges ∧ Ascending ranges ∧
      nameTask sha256 (changeTask batch.type batch.epoch source target ranges) = task := by
  obtain ⟨c, hc, ranges, hranges, hascending, rfl⟩ :=
    mem_derivedTasks (separate_of_rebuildPlan hb h).1 htask
  obtain ⟨source, target, hmoves, -⟩ := rebuildPlan_moves hb h hc
  have hadd := latest.validTopology.members.address
  obtain ⟨hne, hlen, -⟩ := mem_chunks maxTopologyTaskRanges_pos hranges
  have hends : changeEnds c = (source.address, target.address) := by
    rw [changeEnds, hmoves.source_eq, hmoves.target_eq]
    rfl
  rw [hends]
  exact ⟨_, _, ranges, hadd source hmoves.source_mem, hadd target hmoves.target_mem, hne,
    hlen, hascending, rfl⟩

theorem taskAccepted_of_mem : (TaskAccepted task ↔ taskBytes task ≤ maxValueBytes) ∧
      (task.executorAddress.length ≤ safeAddressBytes → TaskAccepted task) := by
  obtain ⟨_, _, _, hs, ht, hne, hlen, hascending, rfl⟩ := exists_piece hb h htask
  have hepoch := (latest.validTopology.epoch batch hb).1
  refine ⟨taskAccepted_iff sha256 hepoch hs ht hne hlen hascending, fun hexec => ?_⟩
  rw [taskAccepted_iff sha256 hepoch hs ht hne hlen hascending]
  exact taskBytes_le sha256 hs ht hlen hascending hexec

/-- Ids of derived tasks are valid, short and of the kind of the batch. -/
theorem taskId_of_mem :
    isValidTaskId task.taskId ∧ (taskIdPrefix batch.type).isPrefixOf task.taskId ∧
      task.taskId.length ≤ maxTaskIdBytes := by
  obtain ⟨hpos, hle⟩ := latest.validTopology.epoch batch hb
  obtain ⟨source, target, ranges, -, -, -, -, -, rfl⟩ := exists_piece hb h htask
  have hid : (nameTask sha256 (changeTask batch.type batch.epoch source target ranges)).taskId =
      buildTaskId sha256 (changeTask batch.type batch.epoch source target ranges) := by
    cases batch.type <;> rfl
  rw [hid]
  refine ⟨isValidTaskId_buildTaskId sha256 hpos, ?_,
    length_buildTaskId_le sha256 (le_trans hle latest.validTopology.version.2)⟩
  refine isPrefixOf_iff_prefix.mpr ?_
  cases batch.type <;>
    exact ⟨decimal _ ++ (ascii "-" ++ digestPrefix sha256 _), by
      simp only [buildTaskId, taskIdHead, changeTask, taskIdPrefix, append_assoc]
      rfl⟩

end

/-- The notify of an executor names the tasks it has, in the order of their ids. -/
theorem taskIds_of_find {changes} {notify}
    (h : (derivedState sha256 batch changes).notifiesByAddress.find? executor = some notify) :
    notify = { activeBatch := some batch
               taskIds := ((derivedTasks sha256 batch changes).filter
                 fun task => task.executorAddress = executor).map taskId } := by
  have hfold : ((derivedTasks sha256 batch changes).foldl (addNotify batch) .empty).find? executor =
      some notify := h
  rw [find?_foldl_addNotify] at hfold
  split at hfold
  · cases hfold
  · exact (Option.some.inj hfold).symm

theorem encodeNotify_iff (hb : latest.state.activeBatch = some batch)
    (h : rebuildPlan latest = .ok plan)
    (hsha : NoCollision sha256 (derivedTasks sha256 batch plan.ownerChanges)) {notify}
    (hfind : (derivedState sha256 batch plan.ownerChanges).notifiesByAddress.find? executor =
      some notify) :
    (∃ pb, encodeNotify notify = .ok pb) ↔ notify.taskIds.length ≤ maxNotifyTaskRefs := by
  obtain ⟨hpos, hle⟩ := latest.validTopology.epoch batch hb
  obtain ⟨hsep, hshort⟩ := separate_of_rebuildPlan hb h
  set tasks := derivedTasks sha256 batch plan.ownerChanges with htasks
  have hsub : (tasks.filter fun task => task.executorAddress = executor).Sublist tasks :=
    filter_sublist
  constructor
  · rintro ⟨_, hok⟩
    exact (encodeNotify_eq_ok.mp hok).1.1.2.2
  · intro hcount
    rw [taskIds_of_find hfind] at hcount ⊢
    refine ⟨_, encodeNotify_batch ⟨hpos, le_trans hle latest.validTopology.version.2⟩
      ?_ ?_ hcount ?_⟩
    · have hsort : tasks.Pairwise fun a b => a.taskId ≤ b.taskId := sortBy_pairwise _ _
      exact pairwise_map.mpr (hsort.sublist hsub)
    · exact (taskIds_nodup hsep hshort hsha).sublist (hsub.map _)
    · exact forall_mem_map.mpr fun task htask => taskId_of_mem hb h (hsub.subset htask)

end

/-! ## A wide scale-out -/

section

variable {latest : TopologySnapshot} {batch : ActiveBatch} {plan : TopologyPlan}

/-- Changes are not empty, so an executor has a task for each of its own. -/
theorem length_changesOf_le_tasks (sha256) (hb : latest.state.activeBatch = some batch)
    (h : rebuildPlan latest = .ok plan) (executor) :
    (changesOf batch.type executor plan.ownerChanges).length ≤
      ((derivedTasks sha256 batch plan.ownerChanges).filter
        fun task => task.executorAddress = executor).length := by
  have hone : ∀ c ∈ changesOf batch.type executor plan.ownerChanges,
      1 ≤ (chunks maxTopologyTaskRanges (sortRanges c.ranges)).length := by
    intro c hc
    obtain ⟨_, _, hmoves, -⟩ := rebuildPlan_moves hb h (mem_filter.mp hc).1
    refine length_pos_iff.mpr fun hnil => hmoves.ranges_ne_nil ?_
    rw [← sortRanges_of_ascending hmoves.ascending,
      ← flatten_chunks maxTopologyTaskRanges_pos (sortRanges c.ranges), hnil]
    rfl
  have hsum := length_le_sum_of_one_le _ (forall_mem_map.mpr hone)
  rwa [length_map, ← length_executorTasks sha256] at hsum

/-- While one member owns everything, each JOINING one takes something over from it. -/
theorem exists_change_to_joining (hb : latest.state.activeBatch = some batch)
    (htype : batch.type = .scaleOut) (h : rebuildPlan latest = .ok plan) {owner m}
    (howner : ∀ m ∈ latest.state.members, committed m → m = owner)
    (hm : m ∈ latest.state.members) (hs : m.state = .joining) (ht : m.tokens ≠ []) :
    ∃ c ∈ plan.ownerChanges, changeEnds c = (owner.address, m.address) := by
  obtain ⟨type, _⟩ := batch
  obtain rfl : type = .scaleOut := htype
  obtain ⟨F, T, hF, hT, rfl⟩ := (rebuildPlan_ordinary hb nofun).mp h
  obtain ⟨t, ht⟩ := exists_mem_of_ne_nil _ ht
  have hto : ownerAt T t = m.identity := hT.ownerAt_token hm (by simp [prospective, hs]) ht
  obtain ⟨m', hm', hcommitted, -, hfrom⟩ := hF.exists_owner t
  obtain rfl := howner m' hm' hcommitted
  have hne : ownerAt F t ≠ ownerAt T t := by
    rw [← hfrom, hto]
    intro heq
    have hsame := eq_of_address_eq latest.validTopology.members.addresses_nodup hm' hm
      (congrArg MemberIdentity.address heq)
    rw [hsame, committed, hs] at hcommitted
    cases hcommitted
  obtain ⟨c, ⟨hc, hcovers⟩, -⟩ := (existsUnique_change_iff hF.sound hT.sound t).mpr hne
  obtain ⟨hsound, htarget⟩ := ends_of_covers hF.sound hT.sound hc hcovers
  refine ⟨c, hc, ?_⟩
  rw [changeEnds, hsound, htarget, ← hfrom, hto]
  rfl

/-- Then it gets a task for each of them. -/
theorem countP_joining_le_tasks (sha256) (hb : latest.state.activeBatch = some batch)
    (htype : batch.type = .scaleOut) (h : rebuildPlan latest = .ok plan) {owner}
    (howner : ∀ m ∈ latest.state.members, committed m → m = owner)
    (htok : ∀ m ∈ latest.state.members, m.tokens ≠ []) :
    (latest.state.members.countP fun m => m.state = .joining) ≤
      ((derivedTasks sha256 batch plan.ownerChanges).filter
        fun task => task.executorAddress = owner.address).length := by
  refine le_trans ?_ (length_changesOf_le_tasks sha256 hb h owner.address)
  have hnodup : ((latest.state.members.filter fun m => m.state = .joining).map
      Member.address).Nodup :=
    latest.validTopology.members.addresses_nodup.sublist (filter_sublist.map _)
  have hsub : (latest.state.members.filter fun m => m.state = .joining).map Member.address ⊆
      (changesOf batch.type owner.address plan.ownerChanges).map (changePeer batch.type) := by
    intro address hadd
    obtain ⟨m, hm, rfl⟩ := mem_map.mp hadd
    obtain ⟨hm, hs⟩ := mem_filter.mp hm
    obtain ⟨c, hc, hends⟩ := exists_change_to_joining hb htype h howner hm (of_decide_eq_true hs)
      (htok m hm)
    refine mem_map.mpr ⟨c, mem_filter.mpr ⟨hc, decide_eq_true ?_⟩, ?_⟩
    · rw [changeExecutor, htype, if_neg (by simp), hends]
    · rw [changePeer, htype, if_neg (by simp), hends]
  have hlen := hnodup.length_le_of_subset hsub
  rwa [length_map, length_map, ← countP_eq_length_filter] at hlen

end

/-- The address of the `i`-th worker of one host. -/
def wideAddress (i : Nat) : Bytes :=
  ascii "10.0.10.111" ++ Fin.ofNat 256 ':'.toNat :: decimal (1000 + i)

def wideToken (i : Nat) : Token := makeHashRingToken (wideAddress i) 0 0

/-- The first worker owns everything and the others join. -/
def wideMember (i : Nat) : Member :=
  ⟨⟨bigEndian memberIdSize i, wideAddress i⟩, if i = 0 then .active else .joining,
    [wideToken i], []⟩

def wideTopology (joining : Nat) : TopologyState :=
  { clusterHasInit := true
    version := 2
    members := (List.range (joining + 1)).map wideMember
    activeBatch := some ⟨.scaleOut, 2⟩
    tokensPerMember := 1 }

/-- Ports of four digits. -/
def widePorts : Nat := 9000

section

variable {i j : Nat}

theorem length_decimal_port (hi : i < widePorts) : (decimal (1000 + i)).length = 4 := by
  rw [widePorts] at hi
  exact length_decimal_four ⟨by omega, by omega⟩

theorem wideAddress_eq (hi : i < widePorts) : wideAddress i = crowdAddress i := by
  rw [widePorts] at hi
  rw [wideAddress, crowdAddress, if_pos hi, Nat.mod_eq_of_lt hi]

/-- The ports are one block of the text that is hashed. -/
theorem wideToken_inj (hi : i < widePorts) (hj : j < widePorts) (h : wideToken i = wideToken j) :
    i = j := by
  have hinput : ∀ i, tokenInput (wideAddress i) 0 0 =
      ascii "10.0.10.111:" ++ (decimal (1000 + i) ++ ascii "#0") := by
    intro i
    simp only [tokenInput, wideAddress, append_assoc]
    rfl
  have hhash : murmurHash3 (tokenInput (wideAddress i) 0 0) 0#32 =
      murmurHash3 (tokenInput (wideAddress j) 0 0) 0#32 := BitVec.toFin_inj.mp h
  rw [hinput, hinput] at hhash
  have hport := murmurHash3_block_inj (by decide) (length_decimal_port hi) (length_decimal_port hj)
    hhash
  have hsum := decimal_injective hport
  omega

end

theorem placed_wideMember (i : Nat) : (wideMember i).Placed 1 := ⟨[0], rfl, by decide, rfl, rfl⟩

theorem countP_joining_wideTopology (joining : Nat) :
    ((canonicalize (wideTopology joining)).members.countP fun m => m.state = .joining) =
      joining := by
  have hperm : (canonicalize (wideTopology joining)).members.Perm (wideTopology joining).members :=
    sortBy_perm _ _
  have hall : ∀ i ∈ List.range joining,
      ((fun m => decide (m.state = MemberState.joining)) ∘ wideMember ∘ Nat.succ) i = true :=
    fun i _ => rfl
  rw [hperm.countP_eq, wideTopology, range_succ_eq_map, map_cons, map_map,
    countP_cons, countP_map, countP_eq_length.mpr hall, length_range]
  rfl

theorem mem_wideTopology {joining : Nat} {m} :
    m ∈ (wideTopology joining).members ↔ ∃ i < joining + 1, wideMember i = m := by
  simp [wideTopology]

theorem workers_wideMember {joining : Nat} (hlt : joining < widePorts) :
    Workers (joining + 1) wideMember := by
  rw [widePorts] at hlt
  exact ⟨by omega, fun i hi => by rw [wideMember, wideAddress_eq (by rw [widePorts]; omega)]⟩

section

variable {joining : Nat} (hpos : 0 < joining) (hlt : joining < widePorts)
include hpos hlt

theorem validTopology_wideTopology : ValidTopology (wideTopology joining) where
  version := by
    constructor
    · exact Nat.two_pos
    · exact (by decide : 2 ≤ int64Max)
  tokensPerMember := (by decide : 0 < 1 ∧ 1 ≤ maxHashRingTokensPerMember)
  epoch b hb := by
    obtain rfl := Option.some.inj hb
    exact ⟨Nat.two_pos, le_refl 2⟩
  batchStates := by
    refine ⟨fun m hm => ?_, wideMember 1, mem_wideTopology.mpr ⟨1, by omega, rfl⟩, rfl⟩
    obtain ⟨i, -, rfl⟩ := mem_wideTopology.mp hm
    cases i <;> rfl
  members := by
    refine (workers_wideMember hlt).validMembers ?_
    have hsingle : ((List.range (joining + 1)).map wideMember).flatMap Member.tokens =
        (List.range (joining + 1)).map wideToken := by
      rw [flatMap_map, map_eq_flatMap]
      rfl
    rw [hsingle]
    refine nodup_range.map_on fun i hi j hj h => ?_
    rw [mem_range] at hi hj
    exact wideToken_inj (by omega) (by omega) h
  committedToken := fun _ =>
    ⟨wideMember 0, mem_wideTopology.mpr ⟨0, by omega, rfl⟩, rfl, cons_ne_nil _ _⟩

theorem fits_wideTopology : Fits (wideTopology joining) where
  valid := validTopology_wideTopology hpos hlt
  storable m hm := by
    obtain ⟨i, -, rfl⟩ := mem_wideTopology.mp hm
    have hstate : (wideMember i).state ≠ .initial := by
      intro h
      cases i <;> cases h
    rw [Storable, if_neg hstate]
    exact placed_wideMember i
  tokens := by
    have hcount : tokenCount (wideTopology joining).members = joining + 1 := by
      have hone : (fun m : Member => m.tokens.length) ∘ wideMember = fun _ => 1 := rfl
      rw [tokenCount, wideTopology, map_map, hone]
      simp
    have hbound : widePorts ≤ maxTopologyTokens := by decide
    omega

/-- A topology that is stored, with a batch that can be derived. -/
theorem exists_wideTopology (sha256) :
    ∃ (latest : TopologySnapshot) (pb : ClusterTopologyPb) (expected : ExpectedDerivedState),
      latest.state = canonicalize (wideTopology joining) ∧ encodeTopology latest.state = .ok pb ∧
        rebuildExpected sha256 latest = .ok expected := by
  have hfits := fits_wideTopology hpos hlt
  obtain ⟨latest, hlatest⟩ : ∃ latest : TopologySnapshot,
      latest.state = canonicalize (wideTopology joining) := by
    have hvalid := validate_eq_ok_iff.mpr
      ⟨hfits.valid.canonicalize, canonicalize_idem hfits.valid.members⟩
    exact ⟨⟨_, hvalid⟩, rfl⟩
  have hb : latest.state.activeBatch = some ⟨.scaleOut, 2⟩ := by rw [hlatest]; rfl
  have hplannable : Plannable latest.state .scaleOut := by
    refine ⟨wideMember 0, ?_, rfl, cons_ne_nil _ _⟩
    rw [hlatest, mem_canonicalize_members]
    exact mem_wideTopology.mpr ⟨0, by omega, rfl⟩
  obtain ⟨expected, hexpected⟩ : ∃ expected, rebuildExpected sha256 latest = .ok expected :=
    (exists_rebuildExpected_iff hb).mpr hplannable
  refine ⟨latest, topologyPb (canonicalize latest.state), expected, hlatest, ?_, hexpected⟩
  rw [hlatest]
  refine encodeTopology_eq_ok.mpr ⟨hfits.canonicalize, ?_, rfl⟩
  rw [canonicalize_idem hfits.valid.members]
  exact (workers_wideMember hlt).byteSize_le hfits rfl (fun _ _ => rfl)
    (by decide : headSize (wideTopology 0) ≤ 100)

end

theorem wide_owner {joining : Nat} {m} (hm : m ∈ (wideTopology joining).members)
    (h : committed m) : m = wideMember 0 := by
  obtain ⟨i, -, rfl⟩ := mem_wideTopology.mp hm
  cases i with
  | zero => rfl
  | succ => cases h

theorem noCollision_of_length_le {sha256} {tasks}
    (h : tasks.length ≤ 1) : NoCollision sha256 tasks := by
  intro a ha b hb _
  match tasks, h with
  | [task], _ =>
    rw [mem_singleton.mp ha, mem_singleton.mp hb]

/-- One owner and one member that joins, with a token each, make one task. -/
theorem length_wideTasks_le {sha256} {latest} {plan} {owner} (hfits : Fits latest.state)
    (hb : latest.state.activeBatch = some ⟨.scaleOut, epoch⟩) (h : rebuildPlan latest = .ok plan)
    (htok : latest.state.tokensPerMember = 1)
    (hcount : (latest.state.members.countP fun m => m.state = .joining) = 1)
    (howner : ∀ m ∈ latest.state.members, committed m → m = owner) :
    (derivedTasks sha256 ⟨.scaleOut, epoch⟩ plan.ownerChanges).length ≤ 1 := by
  have hall : (derivedTasks sha256 ⟨.scaleOut, epoch⟩ plan.ownerChanges).filter
      (fun task => task.executorAddress = owner.address) =
        derivedTasks sha256 ⟨.scaleOut, epoch⟩ plan.ownerChanges := by
    refine filter_eq_self.mpr fun task htask => decide_eq_true ?_
    obtain ⟨c, hc, _, -, -, rfl⟩ := mem_derivedTasks (separate_of_rebuildPlan hb h).1 htask
    obtain ⟨source, _, hmoves, hstate⟩ := rebuildPlan_moves hb h hc
    obtain rfl := howner source hmoves.source_mem (check_eq_ok.mp hstate).1
    change (changeEnds c).1 = source.address
    rw [changeEnds, hmoves.source_eq]
    rfl
  have hchanges := length_changesOf_le_participants hb (by simp) h owner.address
  rw [← hall, length_executorTasks]
  refine le_trans (sum_le_of_le (k := 1) fun c hc => ?_) ?_
  · have hle := length_pieces_mul_le hfits hb h (mem_filter.mp hc).1
    rw [htok] at hle
    simp only [maxTopologyTaskRanges] at hle ⊢
    omega
  · rw [Nat.mul_one]
    exact le_trans hchanges (le_of_eq hcount)

/-- **What can be derived can be stored, up to two limits.** A derived task of a stored topology is
refused only for its size, which needs an executor address of more than 1005 bytes. Unless digest
prefixes collide, a notify is refused only for the number of its tasks, which needs more than 4096
JOINING members in a scale-out or more than 4096 FAILED ones in a failure. -/
theorem derived_state_storable (sha256 : Sha256) {latest : TopologySnapshot} {batch : ActiveBatch}
    {pb : ClusterTopologyPb} {expected : ExpectedDerivedState}
    (hstored : encodeTopology latest.state = .ok pb) (hb : latest.state.activeBatch = some batch)
    (h : rebuildExpected sha256 latest = .ok expected) :
    (∀ task ∈ expected.tasks, (TaskAccepted task ↔ taskBytes task ≤ maxValueBytes) ∧
      (task.executorAddress.length ≤ safeAddressBytes → TaskAccepted task)) ∧
    (NoCollision sha256 expected.tasks → ∀ executor notify,
      expected.notifiesByAddress.find? executor = some notify →
        ((∃ pb, encodeNotify notify = .ok pb) ↔ notify.taskIds.length ≤ maxNotifyTaskRefs) ∧
        ((batch.type ≠ .scaleIn →
          (latest.state.members.countP fun m => m.state = batch.type.participant) ≤
            maxNotifyTaskRefs) → ∃ pb, encodeNotify notify = .ok pb)) := by
  obtain ⟨hfits, -, -⟩ := encodeTopology_eq_ok.mp hstored
  obtain ⟨_, hplan, rfl⟩ := (rebuildExpected_eq_ok hb).mp h
  refine ⟨fun task htask => taskAccepted_of_mem hb hplan htask, ?_⟩
  intro hsha executor notify hfind
  have hiff := encodeNotify_iff hb hplan hsha hfind
  refine ⟨hiff, fun hparticipant => hiff.mpr ?_⟩
  have hcount := length_executorTasks_le sha256 hfits hb hplan hparticipant executor
  rw [taskIds_of_find hfind]
  simpa using hcount

/-- One worker joins another one. -/
theorem wide_pair_storable : ∃ (latest : TopologySnapshot) (expected : ExpectedDerivedState),
      rebuildExpected pairSha256 latest = .ok expected ∧
        latest.state = canonicalize (wideTopology 1) ∧
        (∀ task ∈ expected.tasks, task.executorAddress.length ≤ safeAddressBytes →
          TaskAccepted task) ∧
        ∀ executor notify, expected.notifiesByAddress.find? executor = some notify →
          ∃ pb, encodeNotify notify = .ok pb := by
  obtain ⟨latest, _, expected, hlatest, hstored, hexpected⟩ :=
    exists_wideTopology Nat.one_pos (by decide) pairSha256
  have hb : latest.state.activeBatch = some ⟨.scaleOut, 2⟩ := by rw [hlatest]; rfl
  have hcount : (latest.state.members.countP fun m => m.state = .joining) = 1 := by
    rw [hlatest, countP_joining_wideTopology]
  have hfits : Fits latest.state := (encodeTopology_eq_ok.mp hstored).1
  obtain ⟨htasks, hnot⟩ := derived_state_storable pairSha256 hstored hb hexpected
  refine ⟨latest, expected, hexpected, hlatest, fun task htask => (htasks task htask).2, ?_⟩
  intro executor notify hfind
  refine (hnot ?_ executor notify hfind).2 fun _ => ?_
  · refine noCollision_of_length_le ?_
    obtain ⟨_, hplan, rfl⟩ := (rebuildExpected_eq_ok hb).mp hexpected
    exact length_wideTasks_le hfits hb hplan (by rw [hlatest]; rfl) hcount fun m hm hcommitted => by
      rw [hlatest, mem_canonicalize_members] at hm
      exact wide_owner hm hcommitted
  · rw [show TopologyChangeType.scaleOut.participant = .joining from rfl, hcount]
    decide

/-- An endpoint of the greatest length. -/
def longAddress : Bytes :=
  ascii "[" ++ replicate 1016 (Fin.ofNat 256 '0'.toNat) ++ ascii "]:31501"

/-- Every second token of the first 8192. -/
def spreadRanges : List TokenRange :=
  (List.range maxTopologyTaskRanges).map fun i => ⟨Fin.ofNat _ (2 * i), Fin.ofNat _ (2 * i)⟩

theorem ascending_spreadRanges : Ascending spreadRanges := by
  refine ⟨forall_mem_map.mpr fun i _ => le_refl _, pairwise_map.mpr ?_⟩
  refine pairwise_lt_range.imp_of_mem fun {i j} hi hj hlt => ?_
  rw [mem_range, maxTopologyTaskRanges] at hi hj
  show Fin.ofNat _ (2 * i) < Fin.ofNat _ (2 * j)
  rw [Fin.lt_def, Fin.val_ofNat, Fin.val_ofNat, Nat.mod_eq_of_lt (by omega),
    Nat.mod_eq_of_lt (by omega)]
  omega

theorem canonicalAddress_longAddress : CanonicalAddress longAddress :=
  ⟨by decide, by decide +kernel, by decide +kernel⟩

theorem length_spreadRanges : spreadRanges.length = maxTopologyTaskRanges := by
  rw [spreadRanges, length_map, length_range]

/-- With 4097 members that join, the notify of the one that owns everything is refused. A piece of a
change may be refused too: with 4096 ranges, and an address of 1024 bytes for its executor. -/
theorem wide_scaleOut_not_storable :
    (∃ (latest : TopologySnapshot) (pb : ClusterTopologyPb) (expected : ExpectedDerivedState)
      (executor : Bytes) (notify : TopologyTaskNotify),
      encodeTopology latest.state = .ok pb ∧ latest.state.activeBatch = some ⟨.scaleOut, 2⟩ ∧
        rebuildExpected pairSha256 latest = .ok expected ∧
        expected.notifiesByAddress.find? executor = some notify ∧
        encodeNotify notify = .error ⟨.kInvalid, "invalid notify task ids"⟩) ∧
    ∃ (source target : Bytes) (ranges : List TokenRange), CanonicalAddress source ∧
      CanonicalAddress target ∧ ranges ≠ [] ∧ ranges.length ≤ maxTopologyTaskRanges ∧
        Ascending ranges ∧
        ¬TaskAccepted (nameTask pairSha256 (changeTask .scaleOut 2 source target ranges)) := by
  refine ⟨?_, longAddress, crowdAddress 0, spreadRanges, canonicalAddress_longAddress,
    canonicalAddress_crowdAddress 0, ne_nil_of_length_pos ?_, length_spreadRanges.le,
    ascending_spreadRanges, not_taskAccepted pairSha256 Nat.two_pos canonicalAddress_longAddress
      (canonicalAddress_crowdAddress 0) length_spreadRanges ascending_spreadRanges ?_⟩
  rotate_left
  · rw [length_spreadRanges]
    exact maxTopologyTaskRanges_pos
  · decide +kernel
  have hpos : 0 < maxNotifyTaskRefs + 1 := Nat.succ_pos _
  have hlt : maxNotifyTaskRefs + 1 < widePorts := by decide
  obtain ⟨latest, pb, expected, hlatest, hstored, hexpected⟩ :=
    exists_wideTopology hpos hlt pairSha256
  have hb : latest.state.activeBatch = some ⟨.scaleOut, 2⟩ := by rw [hlatest]; rfl
  have howner : ∀ m ∈ latest.state.members, committed m → m = wideMember 0 := by
    intro m hm hcommitted
    rw [hlatest, mem_canonicalize_members] at hm
    exact wide_owner hm hcommitted
  have htok : ∀ m ∈ latest.state.members, m.tokens ≠ [] := by
    intro m hm
    rw [hlatest, mem_canonicalize_members] at hm
    obtain ⟨_, -, rfl⟩ := mem_wideTopology.mp hm
    exact cons_ne_nil _ _
  have hjoining : (latest.state.members.countP fun m => m.state = .joining) =
      maxNotifyTaskRefs + 1 := by
    rw [hlatest, countP_joining_wideTopology]
  obtain ⟨plan, hplan, rfl⟩ := (rebuildExpected_eq_ok hb).mp hexpected
  have htasks := countP_joining_le_tasks pairSha256 hb rfl hplan howner htok
  have hfind := find?_foldl_addNotify ⟨.scaleOut, 2⟩
    (derivedTasks pairSha256 ⟨.scaleOut, 2⟩ plan.ownerChanges) .empty (wideMember 0).address
  rw [if_neg (length_pos_iff.mp (by omega))] at hfind
  refine ⟨latest, pb, _, (wideMember 0).address, _, hstored, hb, hexpected, hfind,
    encodeNotify_tooMany ?_⟩
  dsimp only
  rw [length_append, length_map]
  omega

end Datasystem.Cluster.TopologyTaskMaterializer
