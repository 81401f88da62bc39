import Datasystem.Cluster.TaskDerivation

/-! What identifies a task. The tasks of a batch split the ranges of every owner
change between them, and the seed of an id determines what the task is about, so
ids are distinct unless digests collide. -/

namespace Datasystem.Cluster.TopologyTaskMaterializer

open Common HashRingToken Lib Sorting Spans Chunks HashAlgorithm List

/-! ## What a task is about -/

/-- The addresses that a task moves ownership from and to. -/
def taskEnds : TopologyTask → Bytes × Bytes
  | .migrate task => (task.executorAddress, task.targetAddress)
  | .delete task => (task.failedAddress, task.executorAddress)

section

variable {type : TopologyChangeType} {epoch : Nat}

@[simp] theorem taskEnds_changeTask (source target) (ranges) :
    taskEnds (changeTask type epoch source target ranges) = (source, target) := by
  cases type <;> rfl

@[simp] theorem ranges_changeTask (source target) (ranges) :
    (changeTask type epoch source target ranges).ranges = sortRanges ranges := by
  cases type <;> simp [changeTask, TopologyTask.ranges, Function.comp_def]

@[simp] theorem taskEnds_nameTask (sha256) (task) :
    taskEnds (nameTask sha256 task) = taskEnds task := by
  cases task <;> rfl

@[simp] theorem ranges_nameTask (sha256) (task) :
    (nameTask sha256 task).ranges = task.ranges := by
  cases task <;> rfl

@[simp] theorem taskIdSeed_nameTask (sha256) (task) :
    taskIdSeed (nameTask sha256 task) = taskIdSeed task := by
  cases task <;> rfl

/-- The readable part of an id says the kind and the epoch only. -/
theorem taskIdHead_changeTask (source target) (ranges) :
    taskIdHead (changeTask type epoch source target ranges) =
      taskIdHead (changeTask type epoch [] [] []) := by
  cases type <;> rfl

theorem maxTopologyTaskRanges_pos : 0 < maxTopologyTaskRanges := by decide

variable {c : TopologyOwnerChange}

/-- A task of a change that ascends, with one of the pieces of its ranges. -/
theorem mem_appendTaskChunks (hc : Ascending c.ranges)
    {task} (h : task ∈ appendTaskChunks type epoch c) :
    ∃ ranges ∈ chunks maxTopologyTaskRanges c.ranges, Ascending ranges ∧
      changeTask type epoch (changeEnds c).1 (changeEnds c).2 ranges = task := by
  rw [appendTaskChunks, sortRanges_of_ascending hc] at h
  obtain ⟨ranges, hranges, rfl⟩ := mem_map.mp h
  exact ⟨ranges, hranges, hc.sublist (mem_chunks maxTopologyTaskRanges_pos hranges).2.2, rfl⟩

/-- The tasks of a change split its ranges in order. -/
theorem flatMap_ranges (hc : Ascending c.ranges) :
    (appendTaskChunks type epoch c).flatMap TopologyTask.ranges = c.ranges := by
  have hsort : ∀ ranges ∈ chunks maxTopologyTaskRanges c.ranges, sortRanges ranges = ranges :=
    fun ranges h =>
      sortRanges_of_ascending (hc.sublist (mem_chunks maxTopologyTaskRanges_pos h).2.2)
  rw [appendTaskChunks, sortRanges_of_ascending hc, flatMap_map]
  simp only [ranges_changeTask]
  rw [flatMap_def, map_congr_left hsort, map_id', flatten_chunks maxTopologyTaskRanges_pos]

end

/-! ## Partition -/

/-- Every change is ascending and can be told by its ends. -/
structure Separate (changes : List TopologyOwnerChange) : Prop where
  ends : (changes.map changeEnds).Nodup
  ascending : ∀ c ∈ changes, Ascending c.ranges

/-- The tasks split the ranges of each change between them, and there are no others. -/
structure Partition (changes : List TopologyOwnerChange) (tasks : List TopologyTask) : Prop where
  covered : ∀ c ∈ changes,
    ((tasks.filter fun task => taskEnds task = changeEnds c).flatMap TopologyTask.ranges).Perm
      c.ranges
  owned : ∀ task ∈ tasks, ∃ c ∈ changes, taskEnds task = changeEnds c ∧
    task.ranges ≠ [] ∧ task.ranges.Sublist c.ranges

variable {changes : List TopologyOwnerChange} {ranges ranges' : List TokenRange}

/-- A derived task is one piece of one change, under its id. -/
theorem mem_derivedTasks {sha256} {batch} (h : Separate changes) {task}
    (htask : task ∈ derivedTasks sha256 batch changes) :
    ∃ c ∈ changes, ∃ ranges ∈ chunks maxTopologyTaskRanges c.ranges, Ascending ranges ∧
      nameTask sha256 (changeTask batch.type batch.epoch (changeEnds c).1 (changeEnds c).2 ranges) =
        task := by
  obtain ⟨_, hplain, rfl⟩ := mem_map.mp (mem_sortBy.mp htask)
  obtain ⟨c, hc, hplain⟩ := mem_flatMap.mp hplain
  obtain ⟨ranges, hranges, hascending, rfl⟩ := mem_appendTaskChunks (h.ascending c hc) hplain
  exact ⟨c, hc, ranges, hranges, hascending, rfl⟩

theorem partition_derivedTasks (sha256) (batch) (h : Separate changes) :
    Partition changes (derivedTasks sha256 batch changes) where
  covered := by
    intro c hc
    set plain := changes.flatMap (appendTaskChunks batch.type batch.epoch) with hplain
    have hgroup : plain.filter (fun task => taskEnds task = changeEnds c) =
        appendTaskChunks batch.type batch.epoch c := by
      refine filter_flatMap_key (fun _ _ _ htask => ?_) h.ends hc
      obtain ⟨_, -, rfl⟩ := mem_map.mp htask
      exact taskEnds_changeTask _ _ _
    have hnamed : ((plain.map (nameTask sha256)).filter fun task =>
        taskEnds task = changeEnds c).flatMap TopologyTask.ranges = c.ranges := by
      rw [filter_map, flatMap_map]
      simp only [Function.comp_def, taskEnds_nameTask, ranges_nameTask, hgroup]
      exact flatMap_ranges (h.ascending c hc)
    have hperm : (derivedTasks sha256 batch changes).Perm (plain.map (nameTask sha256)) :=
      sortBy_perm _ _
    exact ((hperm.filter _).flatMap_right _).trans (.of_eq hnamed)
  owned := by
    intro task htask
    obtain ⟨c, hc, _, hranges, hascending, rfl⟩ := mem_derivedTasks h htask
    refine ⟨c, hc, ?_⟩
    obtain ⟨hne, -, hsub⟩ := mem_chunks maxTopologyTaskRanges_pos hranges
    rw [taskEnds_nameTask, ranges_nameTask, taskEnds_changeTask, ranges_changeTask,
      sortRanges_of_ascending hascending]
    exact ⟨rfl, hne, hsub⟩

/-! ## Ids -/

/-- Numbers that a 64-bit field holds. -/
def uint64Size : Nat := 256 ^ 8

theorem appendString_inj {a b x y} (ha : a.length < uint64Size) (hb : b.length < uint64Size)
    (h : appendString a ++ x = appendString b ++ y) : a = b ∧ x = y := by
  obtain ⟨hlen, hrest⟩ := bigEndian_append_inj ha hb h
  exact append_inj hrest hlen

theorem rangeBytes_injective : Function.Injective fun range : TokenRange =>
    appendU32 range.lo.val ++ appendU32 range.hi.val := by
  intro a b h
  obtain ⟨hlo, hhi⟩ := bigEndian_append_inj a.lo.isLt b.lo.isLt h
  have hhi := bigEndian_inj a.hi.isLt b.hi.isLt hhi
  cases a
  cases b
  simp only [Span.mk.injEq]
  exact ⟨Fin.ext hlo, Fin.ext hhi⟩

theorem appendRanges_inj (ha : Ascending ranges)
    (ha' : Ascending ranges') (hl : ranges.length < uint64Size) (hl' : ranges'.length < uint64Size)
    (h : appendRanges ranges = appendRanges ranges') : ranges = ranges' := by
  rw [appendRanges, appendRanges, sortRanges_of_ascending ha, sortRanges_of_ascending ha'] at h
  obtain ⟨hlen, hbytes⟩ := bigEndian_append_inj hl hl' h
  have hwidth : ∀ range : TokenRange,
      (appendU32 range.lo.val ++ appendU32 range.hi.val).length = 8 := by
    intro range
    simp [appendU32]
  exact flatMap_inj_of_length hwidth rangeBytes_injective hlen hbytes

theorem seedTail_inj {a b a' b'}
    (ha : a.length < uint64Size) (ha' : a'.length < uint64Size) (hb : b.length < uint64Size)
    (hb' : b'.length < uint64Size) (hr : Ascending ranges ∧ ranges.length < uint64Size)
    (hr' : Ascending ranges' ∧ ranges'.length < uint64Size)
    (h : appendString a ++ (appendString b ++ appendRanges ranges) =
      appendString a' ++ (appendString b' ++ appendRanges ranges')) :
    a = a' ∧ b = b' ∧ ranges = ranges' := by
  obtain ⟨heq, h₁⟩ := appendString_inj ha ha' h
  obtain ⟨heq', h₂⟩ := appendString_inj hb hb' h₁
  exact ⟨heq, heq', appendRanges_inj hr.1 hr'.1 hr.2 hr'.2 h₂⟩

/-- Within a batch the seed determines both ends and the ranges. -/
theorem changeTask_seed_inj {type} {epoch : Nat} {s t s' t'}
    (hs : s.length < uint64Size) (hs' : s'.length < uint64Size)
    (ht : t.length < uint64Size) (ht' : t'.length < uint64Size)
    (hr : Ascending ranges ∧ ranges.length < uint64Size)
    (hr' : Ascending ranges' ∧ ranges'.length < uint64Size)
    (h : taskIdSeed (changeTask type epoch s t ranges) =
      taskIdSeed (changeTask type epoch s' t' ranges')) : s = s' ∧ t = t' ∧ ranges = ranges' := by
  have hmap : ∀ (owner : Bytes) (ranges : List TokenRange),
      (ranges.map fun r => (⟨owner, r, false⟩ : TopologyTaskRange)).map TopologyTaskRange.range =
        ranges := by
    intro owner ranges
    simp [Function.comp_def]
  -- kind, type and epoch are the same, and what follows can be read back in order
  cases type <;>
    simp only [changeTask, taskIdSeed, hmap, sortRanges_of_ascending hr.1,
      sortRanges_of_ascending hr'.1, append_assoc, append_cancel_left_eq] at h
  case failure =>
    obtain ⟨htarget, hsource, hranges⟩ := seedTail_inj ht ht' hs hs' hr hr' h
    exact ⟨hsource, htarget, hranges⟩
  all_goals exact seedTail_inj hs hs' ht ht' hr hr' h

/-- Both addresses fit a length field. -/
def ShortEnds (c : TopologyOwnerChange) : Prop :=
  (changeEnds c).1.length < uint64Size ∧ (changeEnds c).2.length < uint64Size

section

variable {type : TopologyChangeType} {epoch : Nat} {changes : List TopologyOwnerChange}

/-- Tasks with one seed come from one change and from the same piece of it. -/
theorem seed_inj_of_mem {c c'} (hc : Ascending c.ranges)
    (hc' : Ascending c'.ranges) (hs : ShortEnds c) (hs' : ShortEnds c')
    {ranges ranges'} (hr : ranges ∈ chunks maxTopologyTaskRanges c.ranges)
    (hr' : ranges' ∈ chunks maxTopologyTaskRanges c'.ranges)
    (h : taskIdSeed (changeTask type epoch (changeEnds c).1 (changeEnds c).2 ranges) =
      taskIdSeed (changeTask type epoch (changeEnds c').1 (changeEnds c').2 ranges')) :
    changeEnds c = changeEnds c' ∧ ranges = ranges' := by
  have hpiece : ∀ {c : TopologyOwnerChange} {ranges : List TokenRange}, Ascending c.ranges →
      ranges ∈ chunks maxTopologyTaskRanges c.ranges →
        Ascending ranges ∧ ranges.length < uint64Size := by
    intro c ranges hc hr
    obtain ⟨-, hlen, hsub⟩ := mem_chunks maxTopologyTaskRanges_pos hr
    have hmax : maxTopologyTaskRanges < uint64Size := by decide
    exact ⟨hc.sublist hsub, by omega⟩
  obtain ⟨hsource, htarget, hranges⟩ :=
    changeTask_seed_inj hs.1 hs'.1 hs.2 hs'.2 (hpiece hc hr) (hpiece hc' hr') h
  exact ⟨Prod.ext hsource htarget, hranges⟩

theorem seeds_pairwise_ne (h : Separate changes) (hshort : ∀ c ∈ changes, ShortEnds c) :
    (changes.flatMap (appendTaskChunks type epoch)).Pairwise fun a b =>
      taskIdSeed a ≠ taskIdSeed b := by
  refine pairwise_flatMap.mpr ⟨fun c hc => ?_, ?_⟩
  · have hascending := h.ascending c hc
    rw [appendTaskChunks, sortRanges_of_ascending hascending, pairwise_map]
    refine (chunks_pairwise_ne maxTopologyTaskRanges_pos hascending.nodup).imp_of_mem ?_
    intro ranges ranges' hr hr' hne heq
    exact hne (seed_inj_of_mem hascending hascending (hshort c hc) (hshort c hc) hr hr' heq).2
  · refine (pairwise_map.mp h.ends).imp_of_mem fun {c c'} hc hc' hne a ha b hb heq => ?_
    obtain ⟨_, hr, -, rfl⟩ := mem_appendTaskChunks (h.ascending c hc) ha
    obtain ⟨_, hr', -, rfl⟩ := mem_appendTaskChunks (h.ascending c' hc') hb
    exact hne (seed_inj_of_mem (h.ascending c hc) (h.ascending c' hc') (hshort c hc)
      (hshort c' hc') hr hr' heq).1

end

/-- No two different seeds of these tasks have one digest prefix. -/
def NoCollision (sha256 : Sha256) (tasks : List TopologyTask) : Prop :=
  ∀ a ∈ tasks, ∀ b ∈ tasks, digestPrefix sha256 (taskIdSeed a) =
    digestPrefix sha256 (taskIdSeed b) →
    taskIdSeed a = taskIdSeed b

theorem taskIds_nodup {sha256} {batch} (h : Separate changes) (hshort : ∀ c ∈ changes, ShortEnds c)
    (hsha : NoCollision sha256 (derivedTasks sha256 batch changes)) :
    ((derivedTasks sha256 batch changes).map TopologyTask.taskId).Nodup := by
  set plain := changes.flatMap (appendTaskChunks batch.type batch.epoch) with hplain
  have hperm : (derivedTasks sha256 batch changes).Perm (plain.map (nameTask sha256)) :=
    sortBy_perm _ _
  have hids : (plain.map (nameTask sha256)).map TopologyTask.taskId =
      plain.map (buildTaskId sha256) := by
    rw [map_map]
    refine map_congr_left fun task _ => ?_
    cases task <;> rfl
  have hhead : ∀ task ∈ plain,
      taskIdHead task = taskIdHead (changeTask batch.type batch.epoch [] [] []) := by
    intro task htask
    obtain ⟨_, -, htask⟩ := mem_flatMap.mp htask
    obtain ⟨_, -, rfl⟩ := mem_map.mp htask
    exact taskIdHead_changeTask _ _ _
  have hmem : ∀ task ∈ plain, nameTask sha256 task ∈ derivedTasks sha256 batch changes :=
    fun task htask => hperm.mem_iff.mpr (mem_map_of_mem htask)
  rw [(hperm.map _).nodup_iff, hids]
  refine pairwise_map.mpr ((seeds_pairwise_ne h hshort).imp_of_mem ?_)
  intro a b ha hb hne heq
  rw [buildTaskId, buildTaskId, hhead a ha, hhead b hb, append_cancel_left_eq] at heq
  have hseed := hsha _ (hmem a ha) _ (hmem b hb)
  rw [taskIdSeed_nameTask, taskIdSeed_nameTask] at hseed
  exact hne (hseed heq)

end Datasystem.Cluster.TopologyTaskMaterializer
