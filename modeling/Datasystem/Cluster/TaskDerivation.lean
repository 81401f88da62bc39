import Datasystem.Cluster.BatchPlans

/-! What the materializer derives. Once a batch can be planned, nothing else can
fail: every owner change passes the checks and every task gets an id. -/

namespace Datasystem.Cluster.TopologyTaskMaterializer

open Common HashRingToken Lib Checked Sorting Spans HashAlgorithm TopologyPlanBuilder List

/-! ## Ranges -/

theorem rangeKey_lt {a b} (h : a.lo < b.lo) : rangeKey a < rangeKey b :=
  Prod.Lex.toLex_lt_toLex.mpr (.inl h)

variable {ranges : List TokenRange} {latest : TopologySnapshot} {batch : ActiveBatch}
  {sha256 : Sha256}

theorem sortRanges_of_ascending (h : Ascending ranges) : sortRanges ranges = ranges :=
  sortBy_of_strict (h.lo_lt.imp rangeKey_lt)

theorem validateRanges_eq_ok {previousEnd} {u} : validateRanges previousEnd ranges = .ok u ↔
      (∀ r ∈ ranges, r.lo ≤ r.hi) ∧ (∀ e ∈ previousEnd, ∀ r ∈ ranges.head?, e < r.lo) ∧
        ranges.IsChain fun a b => a.hi < b.lo := by
  induction ranges generalizing previousEnd with
  | nil => simp [validateRanges]
  | cons r rest ih =>
    have hchain : (r :: rest).IsChain (fun a b => a.hi < b.lo) ↔
        (∀ e ∈ some r.hi, ∀ r' ∈ rest.head?, e < r'.lo) ∧ rest.IsChain fun a b => a.hi < b.lo := by
      cases rest <;> simp
    simp only [validateRanges, bind_eq_ok, check_eq_ok, ih, exists_const,
      forall_mem_cons, head?_cons, Option.mem_some_iff, forall_eq', hchain]
    tauto

theorem validateRanges_none_eq_ok {u} : validateRanges none ranges = .ok u ↔ Ascending ranges := by
  rw [validateRanges_eq_ok]
  constructor
  · intro h
    obtain ⟨hne, -, hchain⟩ := h
    refine ⟨hne, ?_⟩
    induction ranges with
    | nil => exact .nil
    | cons r rest ih =>
      have hrest := ih (fun s hs => hne s (mem_cons_of_mem _ hs)) hchain.tail
      refine .cons (fun s hs => ?_) hrest
      cases rest with
      | nil => cases hs
      | cons r' =>
        have hfirst : r.hi < r'.lo := (isChain_cons_cons.mp hchain).1
        rcases mem_cons.mp hs with rfl | hs
        · exact hfirst
        · have hr' := hne r' (by simp)
          exact hfirst.trans (lt_of_le_of_lt hr' ((pairwise_cons.mp hrest).1 s hs))
  · intro h
    exact ⟨h.nonempty, by simp, h.apart.isChain⟩

/-! ## Members -/

theorem matchesMembers_iff {lefts rights} : matchesMembers lefts rights ↔
      lefts.map (fun m => (m.identity, m.state)) = rights.map fun m => (m.identity, m.state) := by
  induction lefts generalizing rights with
  | nil => cases rights <;> simp [matchesMembers]
  | cons _ _ ih =>
    cases rights with
    | nil => simp [matchesMembers]
    | cons => simp [matchesMembers, ih, and_assoc]

theorem matchesSnapshot_self (latest) : matchesSnapshot latest latest.state := by
  simp [matchesSnapshot, matchesMembers_iff]

theorem findMemberByAddress_of_mem {m}
    (hm : m ∈ latest.state.members) : latest.findMemberByAddress m.address = .ok m := by
  unfold TopologySnapshot.findMemberByAddress
  rw [findByAddress_of_mem latest.validTopology.members.addresses_nodup hm]

/-- A change between members in the right states passes the check. -/
theorem validateOwnerChange_of_moves {type} {c} {source target}
    (hmoves : Moves latest.state.members source target c)
    (hstates : validateChangeStates type source target = .ok ()) :
    validateOwnerChange latest type c = .ok () := by
  have hsort := sortRanges_of_ascending hmoves.ascending
  have hsource := findMemberByAddress_of_mem hmoves.source_mem
  have htarget := findMemberByAddress_of_mem hmoves.target_mem
  unfold validateOwnerChange
  rw [hmoves.source_eq]
  simp only [bind_eq_ok, check_eq_ok, hsort, hmoves.target_eq]
  exact ⟨(), hmoves.ranges_ne_nil, source, hsource, target, htarget, (), ⟨rfl, rfl⟩, (), hstates,
    validateRanges_none_eq_ok.mpr hmoves.ascending⟩

/-! ## Ids -/

theorem length_digestPrefix (sha256) (seed) : (digestPrefix sha256 seed).length = idHashChars := by
  rw [digestPrefix, length_take, Hasher.length_getSha256Hex]
  rfl

theorem idHashChars_lt_buildTaskId (sha256) (task) :
    idHashChars < (buildTaskId sha256 task).length := by
  rw [buildTaskId, length_append, length_digestPrefix]
  suffices 0 < (taskIdHead task).length by omega
  cases task <;> simp [taskIdHead, ascii]

/-- The task under the id that its contents determine. -/
def nameTask (sha256 : Sha256) (task : TopologyTask) : TopologyTask :=
  task.withTaskId (buildTaskId sha256 task)

theorem assignTaskIds_eq (sha256) (tasks) :
    assignTaskIds sha256 tasks = .ok (tasks.map (nameTask sha256)) := by
  induction tasks with
  | nil => rfl
  | cons task _ ih =>
    simp only [assignTaskIds, ih, bind_eq_ok, check_eq_ok, pure_eq_ok]
    exact ⟨(), idHashChars_lt_buildTaskId sha256 task, _, rfl, rfl⟩

/-! ## The derived state -/

/-- The tasks of these changes, under their ids and in the order of the ids. -/
def derivedTasks (sha256 : Sha256) (batch : ActiveBatch) (changes : List TopologyOwnerChange) :
    List TopologyTask :=
  sortBy TopologyTask.taskId
    ((changes.flatMap (appendTaskChunks batch.type batch.epoch)).map (nameTask sha256))

/-- The derived tasks with a notify for each executor. -/
def derivedState (sha256 : Sha256) (batch : ActiveBatch) (changes : List TopologyOwnerChange) :
    ExpectedDerivedState :=
  let tasks := derivedTasks sha256 batch changes
  let notifies := tasks.foldl (addNotify batch) .empty
  { tasks := tasks, notifiesByAddress := notifies, notifyRecipients := notifies.keys }

theorem collectTasks_eq_ok {changes} {tasks} : collectTasks latest batch changes = .ok tasks ↔
      (∀ c ∈ changes, validateOwnerChange latest batch.type c = .ok ()) ∧
        changes.flatMap (appendTaskChunks batch.type batch.epoch) = tasks := by
  induction changes generalizing tasks with
  | nil => simp [collectTasks]
  | cons _ _ ih =>
    simp only [collectTasks, bind_eq_ok, pure_eq_ok, ih, forall_mem_cons, flatMap_cons]
    constructor
    · rintro ⟨_, hc, _, ⟨hrest, rfl⟩, rfl⟩
      exact ⟨⟨hc, hrest⟩, rfl⟩
    · rintro ⟨⟨hc, hrest⟩, rfl⟩
      exact ⟨(), hc, _, ⟨hrest, rfl⟩, rfl⟩

theorem buildExpected_eq_ok (hb : latest.state.activeBatch = some batch) {plan} {expected} :
    buildExpected sha256 latest plan = .ok expected ↔ matchesSnapshot latest plan.next ∧
        (∀ c ∈ plan.ownerChanges, validateOwnerChange latest batch.type c = .ok ()) ∧
        derivedState sha256 batch plan.ownerChanges = expected := by
  unfold buildExpected
  simp only [hb, bind_eq_ok, check_eq_ok, collectTasks_eq_ok, assignTaskIds_eq,
    pure_eq_ok, exists_const, Except.ok.injEq]
  constructor
  · rintro ⟨hmatch, _, ⟨hchanges, rfl⟩, _, rfl, rfl⟩
    exact ⟨hmatch, hchanges, rfl⟩
  · rintro ⟨hmatch, hchanges, rfl⟩
    exact ⟨hmatch, _, ⟨hchanges, rfl⟩, _, rfl, rfl⟩

/-- A batch that is planned again is derived in full. -/
theorem buildExpected_rebuildPlan (sha256) (hb : latest.state.activeBatch = some batch) {plan}
    (h : rebuildPlan latest = .ok plan) :
    buildExpected sha256 latest plan = .ok (derivedState sha256 batch plan.ownerChanges) := by
  refine (buildExpected_eq_ok hb).mpr ⟨?_, fun c hc => ?_, rfl⟩
  · rw [rebuildPlan_next hb h]
    exact matchesSnapshot_self latest
  · obtain ⟨_, _, hmoves, hstate⟩ := rebuildPlan_moves hb h hc
    exact validateOwnerChange_of_moves hmoves hstate

theorem rebuildExpected_eq : rebuildExpected sha256 latest = rebuildBatch sha256 latest := by
  unfold rebuildExpected rebuildExpectedWith
  cases rebuildBatch sha256 latest <;> rfl

/-- What is derived is a function of the changes that the plan lists. -/
theorem rebuildExpected_eq_ok (hb : latest.state.activeBatch = some batch) {expected} :
    rebuildExpected sha256 latest = .ok expected ↔ ∃ plan, rebuildPlan latest = .ok plan ∧
        derivedState sha256 batch plan.ownerChanges = expected := by
  rw [rebuildExpected_eq, rebuildBatch, if_pos (by simp [hb]), bind_eq_ok]
  refine exists_congr fun plan => and_congr_right fun h => ?_
  rw [buildExpected_rebuildPlan sha256 hb h, Except.ok.injEq]

/-- Derivation succeeds exactly if the batch can be planned. -/
theorem exists_rebuildExpected_iff (hb : latest.state.activeBatch = some batch) :
    (∃ expected, rebuildExpected sha256 latest = .ok expected) ↔
      Plannable latest.state batch.type := by
  rw [← exists_rebuildPlan_iff hb]
  simp only [rebuildExpected_eq_ok hb]
  constructor
  · rintro ⟨_, plan, h, -⟩
    exact ⟨plan, h⟩
  · rintro ⟨plan, h⟩
    exact ⟨_, plan, h, rfl⟩

end Datasystem.Cluster.TopologyTaskMaterializer
