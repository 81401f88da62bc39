import Datasystem.Cluster.ExecutorSystem
import Datasystem.Cluster.ReachableTopology

/-! Fences of tasks. While a batch is active its members keep their ids, so every
snapshot that admits a task gives it the same fence: the fence, and with it the
operation and the gate, are functions of the task. -/

namespace Datasystem.Cluster

open Common Lib Checked HashAlgorithm TopologyTaskExecutor

/-! ## Members of one batch -/

variable {snapshot : TopologySnapshot}

theorem TopologySnapshot.findMemberByAddress_eq_ok {address : Bytes} {m : Member}
    (h : snapshot.findMemberByAddress address = .ok m) :
    m ∈ snapshot.state.members ∧ m.address = address := by
  unfold TopologySnapshot.findMemberByAddress at h
  split at h
  · rename_i found hfound
    cases h
    exact findByAddress_some hfound
  · cases h

namespace WorkerSetup

variable (w : WorkerSetup) (epoch : Nat)

/-- The member at an address, as a batch knows it. -/
def identity (address : Bytes) : MemberIdentity :=
  ⟨w.memberId epoch address, address⟩

/-- The fence of a task, whichever snapshot of its batch it is built on. -/
def fenceOf (task : TopologyTask) : TopologyExecutionFence :=
  let built : TopologyExecutionFence :=
    { taskId := task.taskId, taskKind := task.taskKind, batchType := .failure
      batchEpoch := task.epoch, phase := task.phase
      executor := w.identity task.epoch task.executorAddress
      source := none, target := none, failed := none, ranges := task.unfinishedRanges }
  match task with
  | .migrate migrate =>
    { built with
      batchType := migrate.type
      source := some (w.identity migrate.epoch migrate.executorAddress)
      target := some (w.identity migrate.epoch migrate.targetAddress) }
  | .delete remove => { built with failed := some (w.identity remove.epoch remove.failedAddress) }

/-- The operation of a task. -/
def operation (task : TopologyTask) : Bytes := operationOf w.sha256 (w.fenceOf task)

/-- The gate that the ScaleIn tasks of the worker wait at. -/
def localGate : Bytes :=
  scaleInMetadataGateKey epoch (w.memberId epoch w.localAddress)

theorem localGate_ne_nil : w.localGate epoch ≠ [] := by
  simp [localGate, scaleInMetadataGateKey, decimal_ne_nil]

end WorkerSetup

theorem KeepsMemberIds.identity {w : WorkerSetup} (h : KeepsMemberIds w.memberId snapshot)
    {batch : ActiveBatch} (hbatch : snapshot.state.activeBatch = some batch) {address : Bytes}
    {m : Member} (hfind : snapshot.findMemberByAddress address = .ok m)
    (hstate : m.state ≠ .initial) :
    m.identity = w.identity batch.epoch address := by
  obtain ⟨hm, hadd⟩ := TopologySnapshot.findMemberByAddress_eq_ok hfind
  have hid := h batch hbatch m hm hstate
  rw [hadd] at hid
  exact congrArg₂ MemberIdentity.mk hid hadd

/-! ## Fences -/

theorem validateMigrateParticipants_eq_ok {type} {phase} {executor target}
    (h : validateMigrateParticipants type phase executor target = .ok ()) :
    executor.state ≠ .initial ∧ target.state ≠ .initial := by
  unfold validateMigrateParticipants at h
  split at h
  all_goals
    obtain ⟨-, hexecutor, htarget⟩ := check_eq_ok.mp h
    refine ⟨fun he => ?_, fun he => ?_⟩
    · rw [he] at hexecutor
      cases hexecutor
    · rw [he] at htarget
      cases htarget

/-- A fence that could be built is the fence of the task. -/
theorem buildExecutionFence_eq_ok {w : WorkerSetup} {task : TopologyTask}
    {fence : TopologyExecutionFence} (hids : KeepsMemberIds w.memberId snapshot)
    (h : buildExecutionFence w.sha256 w.localAddress task task.phase snapshot = .ok fence) :
    fence = w.fenceOf task ∧ task.executorAddress = w.localAddress := by
  unfold buildExecutionFence at h
  split at h
  · cases h
  · rename_i batch hbatch
    simp only [bind_eq_ok, check_eq_ok, exists_const] at h
    obtain ⟨-, ⟨-, hepoch⟩, _, hexecutor, hlocal, h⟩ := h
    refine ⟨?_, hlocal⟩
    cases task with
    | migrate =>
      simp only [bind_eq_ok, check_eq_ok, exists_const, pure_eq_ok] at h
      obtain ⟨_, htarget, htype, _, hstates, rfl⟩ := h
      obtain ⟨hsource, htargetState⟩ := validateMigrateParticipants_eq_ok hstates
      rw [hids.identity hbatch hexecutor hsource, hids.identity hbatch htarget htargetState,
        ← hepoch, ← htype]
      rfl
    | delete =>
      simp only [bind_eq_ok, check_eq_ok, exists_const, pure_eq_ok] at h
      obtain ⟨_, hfailed, ⟨-, htype, hsource, hfst⟩, rfl⟩ := h
      rw [hids.identity hbatch hexecutor (by simp [hsource]),
        hids.identity hbatch hfailed (by simp [hfst]), ← hepoch, htype]
      rfl

/-! What the sections of the executor may change. A thread works on one operation:
it leaves every other operation what its callbacks rely on, and it keeps the tables
consistent with each other. -/

open OrderedMap Option OperationState

namespace OperationState

variable (state : OperationState)

/-- What a callback in flight relies on: the task, the token, and whether metadata was moved. -/
def held : TopologyTask × Option Nat × Bool :=
  (state.task, state.cancellation, state.scaleInMetadataDone)

/-- One for an operation that owns a token. -/
def inFlight : Nat := if state.cancellation.isSome then 1 else 0

theorem exists_of_held {first second} {state}
    (h : first.map held = second.map held) (hsecond : second = some state) :
    ∃ state', first = some state' ∧ state'.task = state.task ∧
      state'.cancellation = state.cancellation ∧
      state'.scaleInMetadataDone = state.scaleInMetadataDone := by
  rw [hsecond, map_some] at h
  obtain ⟨state', hfirst, heq⟩ := map_eq_some_iff.mp h
  refine ⟨state', hfirst, ?_⟩
  unfold held at heq
  simp only [Prod.mk.injEq] at heq
  exact heq

end OperationState

namespace TopologyTaskExecutor

/-- The operations that wait at a gate. -/
def waitingAt (x : TopologyTaskExecutor) (gate : Bytes) : Finset Bytes :=
  (x.scaleInMetadataPendingByGate.find? gate).getD ∅

/-- An entry of the operation table in an epoch. -/
structure Entry (w : WorkerSetup) (epoch : Nat) (operation : Bytes) (state : OperationState) :
    Prop where
  named : w.operation state.task = operation
  current : state.task.epoch = epoch
  positive : 0 < epoch
  executor : state.task.executorAddress = w.localAddress
  gate : state.scaleInMetadataGate = [] ∨ state.scaleInMetadataGate = w.localGate epoch

/-- The tables of the executor belong together. -/
structure Booked (w : WorkerSetup) (x : TopologyTaskExecutor) : Prop where
  inFlight : x.inFlightOperations = x.operations.sumBy inFlight
  entry : ∀ op state, x.operations.find? op = some state → Entry w x.currentEpoch op state
  scheduled : ∀ op ∈ x.scheduledOperations, (x.operations.find? op).isSome
  waiting : ∀ gate, ∀ op ∈ x.waitingAt gate,
    ∃ state, x.operations.find? op = some state ∧ state.scaleInMetadataGate = gate ∧ gate ≠ []
  stopped : x.started = false → ∀ op, x.operations.find? op = none

/-- `x'` comes from `x` by work on the operation `o`. -/
structure Touches (o : Bytes) (x x' : TopologyTaskExecutor) : Prop where
  started : x'.started = x.started
  currentEpoch : x'.currentEpoch = x.currentEpoch
  tokens : x.tokens ≤ x'.tokens
  /-- Work on one operation leaves the callbacks of another one what they rely on. -/
  held : ∀ {op}, op ≠ o → (x'.operations.find? op).map held =
    (x.operations.find? op).map held

namespace Touches

variable {o : Bytes} {x x' x'' : TopologyTaskExecutor}

theorem refl (o) (x) : Touches o x x := ⟨rfl, rfl, le_refl _, fun _ => rfl⟩

theorem trans (h : Touches o x x') (h' : Touches o x' x'') : Touches o x x'' where
  started := h'.started.trans h.started
  currentEpoch := h'.currentEpoch.trans h.currentEpoch
  tokens := h.tokens.trans h'.tokens
  held hne := (h'.held hne).trans (h.held hne)

end Touches

/-! ## Single entries -/

section

variable {w : WorkerSetup} {x x' : TopologyTaskExecutor} {o : Bytes}

/-- A change of one entry and of nothing else. -/
def only (o : Bytes) (f : OperationState → OperationState) (op : Bytes) :
    OperationState → OperationState :=
  if op = o then f else id

theorem find?_modify_only (table : OrderedMap Bytes OperationState) (f) (op) :
    (table.modify o f).find? op = (table.find? op).map (only o f op) := by
  rw [find?_modify, only]
  split
  · rename_i heq
    rw [heq]
  · rw [map_id]
    rfl

theorem map_only (entry : Option OperationState) (f) : entry.map (only o f o) = entry.map f := by
  rw [only, if_pos rfl]

/-- An entrywise change of the table that touches `o` alone. -/
theorem Touches.of_only {f} (hstarted : x'.started = x.started)
    (hepoch : x'.currentEpoch = x.currentEpoch) (htok : x.tokens ≤ x'.tokens)
    (hfind : ∀ op, x'.operations.find? op = (x.operations.find? op).map (only o f op)) :
    Touches o x x' := by
  refine ⟨hstarted, hepoch, htok, fun hne => ?_⟩
  rw [hfind, only, if_neg hne, map_id]
  rfl

/-- The tables stay consistent when every entry keeps its task and its gate, an entry may be moved
to the gate of the worker, and only entries that exist are scheduled or put at their gate. -/
theorem Booked.map (h : Booked w x) {g : Bytes → OperationState → OperationState}
    (hfind : ∀ op, x'.operations.find? op = (x.operations.find? op).map (g op))
    (hstarted : x'.started = false → x.started = false) (hepoch : x'.currentEpoch = x.currentEpoch)
    (hflight : x'.inFlightOperations = x'.operations.sumBy OperationState.inFlight)
    (hg : ∀ op state, (g op state).task = state.task ∧
      ((g op state).scaleInMetadataGate = state.scaleInMetadataGate ∨
        (g op state).scaleInMetadataGate = w.localGate x.currentEpoch))
    (hscheduled : ∀ op ∈ x'.scheduledOperations,
      op ∈ x.scheduledOperations ∨ (x.operations.find? op).isSome)
    (hwaiting : ∀ gate, ∀ op ∈ x'.waitingAt gate, op ∈ x.waitingAt gate ∨
      ∃ state, x.operations.find? op = some state ∧ state.scaleInMetadataGate = gate ∧ gate ≠ []) :
    Booked w x' where
  inFlight := hflight
  entry := by
    intro op state' hop
    rw [hfind] at hop
    obtain ⟨state, hstate, rfl⟩ := map_eq_some_iff.mp hop
    have he := h.entry op state hstate
    obtain ⟨htask, hgate⟩ := hg op state
    rw [hepoch]
    refine ⟨htask ▸ he.named, htask ▸ he.current, he.positive, htask ▸ he.executor, ?_⟩
    exact hgate.elim (fun heq => heq ▸ he.gate) .inr
  scheduled := by
    intro op hop
    rw [hfind, isSome_map]
    exact (hscheduled op hop).elim (h.scheduled op) id
  waiting := by
    intro gate op hop
    obtain ⟨state, hstate, hgate, hne⟩ := (hwaiting gate op hop).elim (h.waiting gate op) id
    rw [hfind, hstate]
    refine ⟨_, rfl, ?_, hne⟩
    -- an entry at a gate is at the gate of the worker
    have hlocal := (h.entry op state hstate).gate.resolve_left (hgate ▸ hne)
    exact (hg op state).2.elim (·.trans hgate) (·.trans (hlocal.symm.trans hgate))
  stopped := by
    intro hs op
    rw [hfind, h.stopped (hstarted hs) op]
    rfl

theorem only_keeps {f : OperationState → OperationState} {gate : Bytes}
    (hf : ∀ state, (f state).task = state.task ∧
      ((f state).scaleInMetadataGate = state.scaleInMetadataGate ∨
        (f state).scaleInMetadataGate = gate)) (op) (state) :
    (only o f op state).task = state.task ∧
      ((only o f op state).scaleInMetadataGate = state.scaleInMetadataGate ∨
        (only o f op state).scaleInMetadataGate = gate) := by
  unfold only
  split
  · exact hf state
  · exact ⟨rfl, .inl rfl⟩

theorem find?_modifyOperation_self (f) :
    (x.modifyOperation o f).operations.find? o = (x.operations.find? o).map f :=
  (find?_modify_only x.operations f o).trans (map_only _ f)

theorem touches_modifyOperation (f) : Touches o x (x.modifyOperation o f) :=
  .of_only rfl rfl (le_refl _) (find?_modify_only x.operations f)

theorem Booked.modifyOperation (h : Booked w x) {f}
    (hflight : ∀ state, (f state).inFlight = state.inFlight)
    (hf : ∀ state, (f state).task = state.task ∧
      ((f state).scaleInMetadataGate = state.scaleInMetadataGate ∨
        (f state).scaleInMetadataGate = w.localGate x.currentEpoch)) :
    Booked w (x.modifyOperation o f) :=
  h.map (find?_modify_only x.operations f) id rfl
    (h.inFlight.trans (sumBy_modify _ _ hflight).symm) (only_keeps hf)
    (fun _ => .inl) fun _ _ => .inl

/-- Two states with the same tables but for windows and cancelled tokens. -/
theorem Booked.congr (h : Booked w x)
    (hoperations : x'.operations = x.operations) (hepoch : x'.currentEpoch = x.currentEpoch)
    (hscheduled : x'.scheduledOperations ⊆ x.scheduledOperations)
    (hpending : x'.scaleInMetadataPendingByGate = x.scaleInMetadataPendingByGate)
    (hflight : x'.inFlightOperations = x.inFlightOperations)
    (hstarted : x'.started = false → x.started = false) : Booked w x' := by
  refine h.map (g := fun _ => id) (fun op => ?_) hstarted hepoch ?_ (fun _ _ => ⟨rfl, .inl rfl⟩)
    (fun op hop => .inl (hscheduled hop)) fun gate op hop => .inl ?_
  · rw [hoperations, map_id]
    rfl
  · rw [hflight, hoperations, h.inFlight]
  · rwa [waitingAt, hpending] at hop

theorem held_scheduleOperation (nextAttempt : Nat) (op) :
    ((x.scheduleOperation o nextAttempt).operations.find? op).map held =
      (x.operations.find? op).map held := by
  show ((x.operations.modify _ _).find? op).map _ = _
  rw [find?_modify_only, map_map]
  congr 1
  funext state
  show (only o _ op state).held = _
  unfold only
  split <;> rfl

theorem touches_scheduleOperation (nextAttempt : Nat) :
    Touches o x (x.scheduleOperation o nextAttempt) :=
  ⟨rfl, rfl, le_refl _, fun _ => held_scheduleOperation nextAttempt _⟩

theorem Booked.scheduleOperation (h : Booked w x) (nextAttempt : Nat)
    (hsome : (x.operations.find? o).isSome) : Booked w (x.scheduleOperation o nextAttempt) := by
  have hmodify : Booked w (x.modifyOperation o ({ · with nextAttempt := nextAttempt })) :=
    h.modifyOperation (fun _ => rfl) fun _ => ⟨rfl, .inl rfl⟩
  refine ⟨hmodify.inFlight, hmodify.entry, ?_, hmodify.waiting, hmodify.stopped⟩
  intro op hop
  rcases Finset.mem_insert.mp hop with rfl | hop
  · exact (congrArg Option.isSome (find?_modifyOperation_self _)).trans (by rw [isSome_map, hsome])
  · exact hmodify.scheduled op hop

theorem Booked.clearOperationSchedule (h : Booked w x) : Booked w (x.clearOperationSchedule o) := by
  have hmodify : Booked w (x.modifyOperation o ({ · with nextAttempt := 0 })) :=
    h.modifyOperation (fun _ => rfl) fun _ => ⟨rfl, .inl rfl⟩
  exact hmodify.congr rfl rfl (Finset.erase_subset _ _) rfl rfl id

/-! ## Tokens -/

theorem find?_releaseInFlight (op) : (x.releaseInFlight o).operations.find? op =
      (x.operations.find? op).map (only o ({ · with cancellation := none }) op) := by
  unfold releaseInFlight
  split
  · exact find?_modify_only x.operations _ op
  · rename_i howns
    -- without a token the change does nothing
    unfold only
    split
    · rename_i heq
      subst heq
      cases hfind : x.operations.find? op with
      | none => rfl
      | some state =>
        have hnone : state.cancellation = none := by
          rw [ownsToken, hfind, any_some, not_isSome_iff_eq_none] at howns
          exact howns
        rw [map_some, ← hnone]
    · rw [map_id]
      rfl

variable (gate : Bytes) (state : OperationState)

theorem releaseInFlight_eq : ∃ operations flights, x.releaseInFlight o =
    { x with operations := operations, inFlightOperations := flights } := by
  unfold releaseInFlight
  split
  · exact ⟨_, _, rfl⟩
  · exact ⟨x.operations, x.inFlightOperations, rfl⟩

theorem waitingAt_releaseInFlight : (x.releaseInFlight o).waitingAt gate = x.waitingAt gate := by
  obtain ⟨_, _, heq⟩ := releaseInFlight_eq (x := x) (o := o)
  rw [heq]
  rfl

theorem ownsToken_releaseInFlight : (x.releaseInFlight o).ownsToken o = false := by
  rw [ownsToken, find?_releaseInFlight, map_only]
  cases x.operations.find? o <;> rfl

theorem touches_releaseInFlight : Touches o x (x.releaseInFlight o) := by
  obtain ⟨_, _, heq⟩ := releaseInFlight_eq (x := x) (o := o)
  exact .of_only (by rw [heq]) (by rw [heq]) (by rw [heq]) find?_releaseInFlight

/-- The sum loses one for each token that is given back. -/
theorem Booked.inFlight_releaseInFlight (h : Booked w x) :
    (x.releaseInFlight o).inFlightOperations =
      (x.releaseInFlight o).operations.sumBy OperationState.inFlight := by
  unfold releaseInFlight
  split
  · rename_i howns
    obtain ⟨state, hfind, hstate⟩ := (any_eq_true _ _).mp howns
    have hsum := sumBy_insert x.operations o { state with cancellation := none }
      OperationState.inFlight
    rw [hfind, Option.elim_some, OperationState.inFlight, if_pos hstate] at hsum
    show x.inFlightOperations - 1 = (x.operations.modify o _).sumBy _
    rw [OrderedMap.modify, hfind, h.inFlight]
    have hzero : OperationState.inFlight { state with cancellation := none } = 0 := rfl
    dsimp only
    omega
  · exact h.inFlight

theorem Booked.releaseInFlight (h : Booked w x) : Booked w (x.releaseInFlight o) := by
  obtain ⟨_, _, heq⟩ := releaseInFlight_eq (x := x) (o := o)
  refine h.map find?_releaseInFlight (by rw [heq]; exact id) (by rw [heq])
    h.inFlight_releaseInFlight
    (only_keeps fun _ => ⟨rfl, .inl rfl⟩) (fun op hop => .inl ?_) fun gate op hop => .inl ?_
  · rwa [heq] at hop
  · rwa [waitingAt_releaseInFlight] at hop

/-! ## Gates -/

theorem waitingAt_leaveGate (g) : (x.leaveGate gate o).waitingAt g =
    if g = gate then (x.waitingAt g).erase o else x.waitingAt g := by
  unfold leaveGate
  split
  · rename_i hnone
    split
    · rename_i heq
      rw [heq, waitingAt, hnone]
      rfl
    · rfl
  · rename_i waiting hsome
    unfold waitingAt
    dsimp only
    by_cases heq : g = gate
    · rw [if_pos heq, heq, hsome]
      split
      · rename_i hempty
        rw [find?_erase, if_pos rfl]
        exact hempty.symm
      · rw [find?_insert, if_pos rfl]
        rfl
    · rw [if_neg heq]
      split
      · rw [find?_erase, if_neg heq]
      · rw [find?_insert, if_neg heq]

theorem leaveGate_eq : ∃ pending, x.leaveGate gate o =
    { x with scaleInMetadataPendingByGate := pending } := by
  unfold leaveGate
  split
  · exact ⟨x.scaleInMetadataPendingByGate, rfl⟩
  · exact ⟨_, rfl⟩

theorem touches_leaveGate : Touches o x (x.leaveGate gate o) := by
  obtain ⟨_, h⟩ := leaveGate_eq (x := x) (o := o) gate
  rw [h]
  exact ⟨rfl, rfl, le_refl _, fun _ => rfl⟩

theorem Booked.leaveGate (h : Booked w x) (gate) : Booked w (x.leaveGate gate o) := by
  have hwaiting g op (hop : op ∈ (x.leaveGate gate o).waitingAt g) := h.waiting g op <| by
    rw [waitingAt_leaveGate] at hop
    split at hop
    · exact Finset.mem_of_mem_erase hop
    · exact hop
  obtain ⟨_, heq⟩ := leaveGate_eq (x := x) (o := o) gate
  rw [heq] at hwaiting ⊢
  exact ⟨h.inFlight, h.entry, h.scheduled, hwaiting, h.stopped⟩

/-! ## Erasing -/

/-- The tables without the traces of an operation that is about to be erased. -/
theorem touches_forgetOperation : Touches o x (x.forgetOperation o state) := by
  have hleft : Touches o x (if state.scaleInMetadataGate = [] then x
      else x.leaveGate state.scaleInMetadataGate o) := by
    split
    · exact .refl o x
    · exact touches_leaveGate _
  have hreleased := hleft.trans (touches_releaseInFlight (o := o))
  exact ⟨hreleased.started, hreleased.currentEpoch, hreleased.tokens, hreleased.held⟩

theorem Booked.forgetOperation (h : Booked w x) (state) : Booked w (x.forgetOperation o state) := by
  have hleft : Booked w (if state.scaleInMetadataGate = [] then x
      else x.leaveGate state.scaleInMetadataGate o) := by
    split
    · exact h
    · exact h.leaveGate _
  exact hleft.releaseInFlight.congr rfl rfl (Finset.erase_subset _ _) rfl rfl id

theorem Booked.notMem_waitingAt_forgetOperation (h : Booked w x) {state}
    (hfind : x.operations.find? o = some state) (gate) :
    o ∉ (x.forgetOperation o state).waitingAt gate := by
  intro hwaiting
  have hpending : o ∈ ((if state.scaleInMetadataGate = [] then x
      else x.leaveGate state.scaleInMetadataGate o).releaseInFlight o).waitingAt gate := hwaiting
  rw [waitingAt_releaseInFlight] at hpending
  split at hpending
  · rename_i hnil
    obtain ⟨_, hfind', hstate', hne⟩ := h.waiting gate o hpending
    cases hfind.symm.trans hfind'
    exact hne (hstate' ▸ hnil)
  · rw [waitingAt_leaveGate] at hpending
    split at hpending
    · exact Finset.notMem_erase _ _ hpending
    · rename_i hother
      obtain ⟨_, hfind', hstate', -⟩ := h.waiting gate o hpending
      cases hfind.symm.trans hfind'
      exact hother hstate'.symm

theorem find?_eraseOperation_self : (x.eraseOperation o).operations.find? o = none := by
  unfold eraseOperation
  split
  · rename_i hnone
    exact hnone
  · show ((x.forgetOperation o _).operations.erase o).find? o = none
    rw [find?_erase, if_pos rfl]

theorem touches_eraseOperation : Touches o x (x.eraseOperation o) := by
  unfold eraseOperation
  split
  · exact .refl o x
  · rename_i state hfind
    have h := touches_forgetOperation (x := x) (o := o) state
    refine ⟨h.started, h.currentEpoch, h.tokens, fun hne => ?_⟩
    show (((x.forgetOperation o state).operations.erase o).find? _).map _ = _
    rw [find?_erase, if_neg hne]
    exact h.held hne

/-- An operation without a token, a schedule and a gate can go. -/
theorem Booked.drop (h : Booked w x) (hfree : x.ownsToken o = false)
    (hscheduled : o ∉ x.scheduledOperations) (hwaiting : ∀ gate, o ∉ x.waitingAt gate) :
    Booked w { x with operations := x.operations.erase o } where
  inFlight := by
    have hsum := sumBy_erase x.operations o OperationState.inFlight
    have hzero : (x.operations.find? o).elim 0 OperationState.inFlight = 0 := by
      rw [ownsToken] at hfree
      cases hf : x.operations.find? o with
      | none => rfl
      | some =>
        rw [hf, any_some] at hfree
        simp [OperationState.inFlight, hfree]
    rw [hzero, Nat.add_zero] at hsum
    exact h.inFlight.trans hsum.symm
  entry op state hop := by
    dsimp only at hop
    rw [find?_erase] at hop
    split at hop
    · cases hop
    · exact h.entry op state hop
  scheduled op hop := by
    have hother : op ≠ o := fun heq => hscheduled (heq ▸ hop)
    dsimp only
    rw [find?_erase, if_neg hother]
    exact h.scheduled op hop
  waiting gate op hop := by
    have hother : op ≠ o := fun heq => hwaiting gate (heq ▸ hop)
    dsimp only
    rw [find?_erase, if_neg hother]
    exact h.waiting gate op hop
  stopped hstarted op := by
    dsimp only
    rw [find?_erase, h.stopped hstarted, ite_self]

theorem Booked.eraseOperation (h : Booked w x) : Booked w (x.eraseOperation o) := by
  unfold TopologyTaskExecutor.eraseOperation
  split
  · exact h
  · rename_i state hfind
    exact (h.forgetOperation state).drop ownsToken_releaseInFlight (Finset.notMem_erase _ _)
      (h.notMem_waitingAt_forgetOperation hfind)

end

theorem ownsToken_of_held {x x' : TopologyTaskExecutor} {op : Bytes}
    (h : (x'.operations.find? op).map held =
      (x.operations.find? op).map held) : x'.ownsToken op = x.ownsToken op := by
  have hany := congrArg (Option.any fun held => held.2.1.isSome) h
  rw [any_map, any_map] at hany
  exact hany

/-! ## Sections -/

/-- A section on the operation `o`: it erases `o` or leaves it its task. -/
structure Works (w : WorkerSetup) (o : Bytes) (x x' : TopologyTaskExecutor) : Prop where
  touches : Touches o x x'
  booked : Booked w x → Booked w x'
  keeps : ∀ state', x'.operations.find? o = some state' →
    ∃ state, x.operations.find? o = some state ∧ state'.task = state.task
  free : x.ownsToken o = false → x'.ownsToken o = false

section

variable {w : WorkerSetup} {o : Bytes} {x x' x'' : TopologyTaskExecutor}

namespace Works

theorem refl (w) (o) (x) : Works w o x x := ⟨.refl o x, id, fun state h => ⟨state, h, rfl⟩, id⟩

theorem trans (h : Works w o x x') (h' : Works w o x' x'') : Works w o x x'' where
  touches := h.touches.trans h'.touches
  booked hx := h'.booked (h.booked hx)
  keeps state'' hfind := by
    obtain ⟨state', hfind', htask'⟩ := h'.keeps state'' hfind
    obtain ⟨state, hfind, htask⟩ := h.keeps state' hfind'
    exact ⟨state, hfind, htask'.trans htask⟩
  free hfree := h'.free (h.free hfree)

theorem modifyOperation {f}
    (hf : ∀ state, (f state).task = state.task ∧ (f state).cancellation = state.cancellation ∧
      (f state).scaleInMetadataGate = state.scaleInMetadataGate) :
    Works w o x (x.modifyOperation o f) where
  touches := touches_modifyOperation f
  booked h := by
    refine h.modifyOperation (fun state => ?_) fun state => ⟨(hf state).1, .inl (hf state).2.2⟩
    rw [inFlight, (hf state).2.1]
    rfl
  keeps state' hfind := by
    rw [find?_modifyOperation_self] at hfind
    obtain ⟨state, hstate, rfl⟩ := map_eq_some_iff.mp hfind
    exact ⟨state, hstate, (hf state).1⟩
  free hfree := by
    rw [ownsToken, find?_modifyOperation_self, any_map, ← hfree]
    refine congrArg (Option.any · _) (funext fun state => ?_)
    rw [(hf state).2.1]

theorem releaseInFlight : Works w o x (x.releaseInFlight o) where
  touches := touches_releaseInFlight
  booked h := h.releaseInFlight
  keeps state' hfind := by
    rw [find?_releaseInFlight, map_only] at hfind
    obtain ⟨state, hstate, rfl⟩ := map_eq_some_iff.mp hfind
    exact ⟨state, hstate, rfl⟩
  free _ := ownsToken_releaseInFlight

theorem eraseOperation : Works w o x (x.eraseOperation o) where
  touches := touches_eraseOperation
  booked h := h.eraseOperation
  keeps state' hfind := by
    rw [find?_eraseOperation_self] at hfind
    cases hfind
  free _ := by
    rw [ownsToken, find?_eraseOperation_self]
    rfl

theorem scheduleOperation (nextAttempt : Nat) (hsome : (x.operations.find? o).isSome) :
    Works w o x (x.scheduleOperation o nextAttempt) where
  touches := touches_scheduleOperation nextAttempt
  booked h := h.scheduleOperation nextAttempt hsome
  keeps state' hfind := by
    obtain ⟨state, hstate, htask, -⟩ :=
      exists_of_held (held_scheduleOperation nextAttempt o).symm hfind
    exact ⟨state, hstate, htask.symm⟩
  free hfree := (ownsToken_of_held (held_scheduleOperation nextAttempt o)).trans hfree

theorem scheduleRetry {options} {phase}
    {now draw : Nat} (h : x.scheduleRetry options phase o now draw = some x') : Works w o x x' := by
  unfold TopologyTaskExecutor.scheduleRetry at h
  split at h
  · cases h
  · rename_i state hfind
    split at h
    · cases h
    · cases h
      exact scheduleOperation _ (isSome_of_mem hfind)

variable (options : TopologyTaskExecutorOptions) (phase : TopologyCallbackPhase)

theorem retryOrErase (retryable) (phase) (now draw : Nat) :
    Works w o x (x.retryOrErase options retryable phase o now draw) := by
  unfold TopologyTaskExecutor.retryOrErase
  split
  · cases hretry : x.scheduleRetry options phase o now draw with
    | none => exact eraseOperation
    | some => exact scheduleRetry hretry
  · exact eraseOperation

theorem completeFailure (status) (progressFailure) (now draw : Nat) :
    Works w o x (x.completeFailure options phase o status progressFailure now draw) :=
  releaseInFlight.trans (retryOrErase options _ phase now draw)

theorem finishCallbackBody (callback) (now draw : Nat) :
    Works w o x (x.finishCallbackBody options phase o callback now draw) := by
  refine releaseInFlight.trans (Works.trans ?_ (retryOrErase options _ phase now draw))
  split
  · exact modifyOperation fun _ => ⟨rfl, rfl, rfl⟩
  · exact refl w o _

theorem discardIfStopping (h : x.discardIfStopping o = some x') : Works w o x x' := by
  unfold TopologyTaskExecutor.discardIfStopping at h
  split at h
  · cases h
  · cases h
    exact eraseOperation

theorem beginProgress {phase} {status}
    (h : x.beginProgress phase o status = some x') : Works w o x x' := by
  unfold TopologyTaskExecutor.beginProgress at h
  split at h
  · cases h
  · cases h
    exact modifyOperation fun _ => ⟨rfl, rfl, rfl⟩

/-- The task of a due operation is the one it was booked with. -/
theorem preserveDueOperation {task} (status) (now : Nat)
    (htask : ∀ state, x.operations.find? o = some state → state.task = task) :
    Works w o x (x.preserveDueOperation options o task status now) := by
  unfold TopologyTaskExecutor.preserveDueOperation
  split
  · exact refl w o x
  · rename_i hpreserve
    split
    · exact eraseOperation
    · obtain ⟨state, hstate⟩ := ne_none_iff_exists'.mp fun he => hpreserve (.inr he)
      have hsame : x.modifyOperation o ({ · with task := task }) = x := by
        unfold TopologyTaskExecutor.modifyOperation OrderedMap.modify
        rw [hstate]
        dsimp only
        rw [← htask state hstate]
        have hinsert : x.operations.insert o { state with task := state.task } = x.operations := by
          rw [← insert_erase hstate, insert_insert]
        rw [hinsert]
      rw [hsame]
      exact scheduleOperation _ (isSome_of_mem hstate)

end Works

/-- The first section of `CompleteProgress` leaves the callback its operation. -/
theorem held_beginProgress {phase} {status} (h : x.beginProgress phase o status = some x') :
    (x'.operations.find? o).map held = (x.operations.find? o).map held := by
  unfold beginProgress at h
  split at h
  · cases h
  · cases h
    rw [find?_modifyOperation_self, map_map]
    rfl

/-! ## Metadata -/

variable (gate : Bytes)

theorem touches_scheduleScaleInDataDrainReady (now : Nat) :
    Touches o x (x.scheduleScaleInDataDrainReady gate now) := by
  refine ⟨rfl, rfl, le_refl _, fun _ => ?_⟩
  show ((x.operations.mapValues _).find? _).map _ = _
  rw [find?_mapValues, map_map]
  congr 1
  funext state
  simp only [Function.comp_apply]
  split <;> rfl

theorem Booked.scheduleScaleInDataDrainReady (h : Booked w x) (gate) (now : Nat) :
    Booked w (x.scheduleScaleInDataDrainReady gate now) := by
  refine h.map (find?_mapValues x.operations _) id rfl
    (h.inFlight.trans (sumBy_mapValues _ fun state => ?_).symm) (fun op state => ?_)
    (fun op hop => ?_) fun _ _ => .inl
  · split <;> rfl
  · split <;> exact ⟨rfl, .inl rfl⟩
  · rcases Finset.mem_union.mp hop with hop | hop
    · exact .inl hop
    · obtain ⟨_, he, rfl⟩ := List.mem_map.mp (List.mem_toFinset.mp hop)
      exact .inr (isSome_of_mem (mem_entries_iff.mp (List.mem_filter.mp he).1))

theorem touches_passMetadata : Touches o x (x.passMetadata gate o) :=
  (touches_releaseInFlight.trans (touches_modifyOperation _)).trans (touches_leaveGate gate)

theorem Booked.passMetadata (h : Booked w x) :
    Booked w (x.passMetadata (w.localGate x.currentEpoch) o) := by
  have hepoch : (x.releaseInFlight o).currentEpoch = x.currentEpoch :=
    touches_releaseInFlight.currentEpoch
  have hmodify : Booked w ((x.releaseInFlight o).modifyOperation o fun state =>
      { state with
        scaleInMetadataGate := w.localGate x.currentEpoch
        scaleInMetadataDone := true }) := by
    refine h.releaseInFlight.modifyOperation (fun _ => rfl) fun _ => ⟨rfl, .inr ?_⟩
    rw [hepoch]
  exact hmodify.leaveGate _

theorem isSome_passMetadata :
    ((x.passMetadata gate o).operations.find? o).isSome = (x.operations.find? o).isSome := by
  unfold passMetadata
  obtain ⟨_, heq⟩ := leaveGate_eq (o := o) gate
  rw [heq]
  rw [find?_modifyOperation_self, find?_releaseInFlight, isSome_map, isSome_map]

/-- The metadata of an operation was marked: the operation leaves the gate of the worker. -/
theorem touches_finishMetadata (options) (gate) (now : Nat) :
    Touches o x (x.finishMetadata options gate o now) := by
  unfold finishMetadata
  split
  · exact .refl o x
  · dsimp only
    split
    · exact ((touches_passMetadata gate).trans (touches_scheduleOperation now)).trans
        (touches_scheduleScaleInDataDrainReady gate now)
    · exact (touches_passMetadata gate).trans (touches_scheduleOperation _)

theorem Booked.finishMetadata (h : Booked w x) (options) (now : Nat) :
    Booked w (x.finishMetadata options (w.localGate x.currentEpoch) o now) := by
  unfold TopologyTaskExecutor.finishMetadata
  split
  · exact h
  · rename_i state hstate
    have hpass := h.passMetadata (o := o)
    have hsome : ((x.passMetadata (w.localGate x.currentEpoch) o).operations.find? o).isSome := by
      rw [isSome_passMetadata, hstate]
      rfl
    dsimp only
    split
    · exact (hpass.scheduleOperation now hsome).scheduleScaleInDataDrainReady _ now
    · exact hpass.scheduleOperation _ hsome

/-! ## Epochs, start and stop -/

theorem booked_of_empty (hoperations : x.operations = .empty)
    (hscheduled : x.scheduledOperations = ∅)
    (hpending : x.scaleInMetadataPendingByGate = .empty) (hflight : x.inFlightOperations = 0) :
    Booked w x where
  inFlight := by
    rw [hflight, hoperations]
    rfl
  entry op state hfind := by
    rw [hoperations] at hfind
    cases hfind
  scheduled op hop := by
    rw [hscheduled] at hop
    exact absurd hop (Finset.notMem_empty op)
  waiting gate op hop := by
    rw [waitingAt, hpending] at hop
    exact absurd hop (Finset.notMem_empty op)
  stopped _ op := by
    rw [hoperations]
    rfl

theorem Booked.cancelOperations (h : Booked w x) : Booked w x.cancelOperations :=
  h.congr rfl rfl (Finset.Subset.refl _) rfl rfl id

theorem Booked.inFlight_pos (h : Booked w x) {state} {token : Nat}
    (hfind : x.operations.find? o = some state) (htoken : state.cancellation = some token) :
    0 < x.inFlightOperations := by
  rw [h.inFlight]
  have hle := OrderedMap.le_sumBy hfind OperationState.inFlight
  have hone : state.inFlight = 1 := by
    rw [OperationState.inFlight, htoken]
    rfl
  omega

/-- What a notify of an epoch makes of the executor: either the older epoch is still draining, or
the epoch is now the current one, and the table is kept or empty. -/
inductive Refreshed (epoch : Nat) (x : TopologyTaskExecutor) :
    TopologyTaskExecutor × Result Unit → Prop
  | draining (e : Status) : Refreshed epoch x (x.cancelOperations, .error e)
  | current (h : x.currentEpoch = 0 ∨ x.currentEpoch = epoch) :
      Refreshed epoch x ({ x with currentEpoch := epoch }, .ok ())
  | cleared (h : x.inFlightOperations = 0) :
      Refreshed epoch x ({ x.cancelOperations.clearTables with currentEpoch := epoch }, .ok ())

theorem refreshed_refreshNotifyEpoch (epoch : Nat) :
    Refreshed epoch x (x.refreshNotifyEpoch epoch) := by
  unfold refreshNotifyEpoch
  split
  · split
    · rename_i hzero
      exact .cleared hzero
    · exact .draining _
  · exact .current (by omega)

theorem Booked.refresh (h : Booked w x) {epoch : Nat} {r}
    (hr : Refreshed epoch x r) : Booked w r.1 := by
  cases hr with
  | draining _ => exact h.cancelOperations
  | cleared hzero => exact booked_of_empty rfl rfl rfl hzero
  | current hsame =>
    refine ⟨h.inFlight, ?_, h.scheduled, h.waiting, h.stopped⟩
    intro op state hfind
    have he := h.entry op state hfind
    rcases hsame with hzero | hsame
    · exact absurd he.positive (by omega)
    · show Entry w epoch op state
      exact hsame ▸ he

theorem Booked.start (h : Booked w x) {options}
    {localAddress} (hstart : x.start options localAddress = .ok x') : Booked w x' := by
  unfold TopologyTaskExecutor.start at hstart
  simp only [bind_eq_ok, check_eq_ok, exists_const, pure_eq_ok] at hstart
  obtain ⟨-, rfl⟩ := hstart
  exact h.congr rfl rfl (Finset.Subset.refl _) rfl rfl (by simp)

theorem Booked.beginStop (h : Booked w x) : Booked w x.beginStop :=
  h.cancelOperations.congr rfl rfl (Finset.Subset.refl _) rfl rfl id

theorem booked_finishStop : Booked w x.finishStop := booked_of_empty rfl rfl rfl rfl

end

end TopologyTaskExecutor

end Datasystem.Cluster
