import Datasystem.Cluster.ExecutorSections

/-! Admission of callbacks. An admission books the task under its operation, hands out at most one
token, and changes no other operation. -/

namespace Datasystem.Cluster

open Common Lib Checked TopologyTaskExecutor OrderedMap Option

namespace TopologyTaskExecutor

section

variable {w : WorkerSetup} {o : Bytes} {x x' x'' : TopologyTaskExecutor}

/-- A task that may be booked in the current epoch. -/
structure Admissible (w : WorkerSetup) (x : TopologyTaskExecutor) (task : TopologyTask) : Prop where
  current : task.epoch = x.currentEpoch
  positive : 0 < x.currentEpoch
  executor : task.executorAddress = w.localAddress

variable {task : TopologyTask} {op gate : Bytes} {allowDataDrain : Bool}
  {phase : TopologyCallbackPhase}

theorem Admissible.touches (h : Admissible w x task) (ht : Touches o x x') :
    Admissible w x' task := by
  obtain ⟨hcurrent, hpos, hexecutor⟩ := h
  rw [← ht.currentEpoch] at hcurrent hpos
  exact ⟨hcurrent, hpos, hexecutor⟩

/-- What an admission of a task makes of the executor. -/
structure Admission (w : WorkerSetup) (task : TopologyTask) (allowDataDrain : Bool)
    (x x' : TopologyTaskExecutor) (result : Result (Option Nat)) : Prop where
  touches : Touches (w.operation task) x x'
  booked : Booked w x → Booked w x'
  keeps : ∀ state', x'.operations.find? (w.operation task) = some state' → state'.task = task ∨
    ∃ state, x.operations.find? (w.operation task) = some state ∧ state'.task = state.task
  owned : x.ownsToken (w.operation task) → x' = x ∧ ∀ token, result ≠ .ok (some token)
  free : (∀ token, result ≠ .ok (some token)) → x.ownsToken (w.operation task) = false →
    x'.ownsToken (w.operation task) = false
  granted : ∀ token, result = .ok (some token) →
    x.started ∧ token = x.tokens ∧ token < x'.tokens ∧
      ∃ state', x'.operations.find? (w.operation task) = some state' ∧
      state'.cancellation = some token ∧ state'.task = task ∧
      (allowDataDrain = false → state'.scaleInMetadataDone = false)

theorem phase_fenceOf (w : WorkerSetup) (task : TopologyTask) :
    (w.fenceOf task).phase = task.phase := by
  cases task <;> rfl

theorem batchEpoch_fenceOf (w : WorkerSetup) (task : TopologyTask) :
    (w.fenceOf task).batchEpoch = task.epoch := by
  cases task <;> rfl

theorem scaleInMetadataGate_fenceOf (hphase : task.phase = .scaleIn)
    (hexecutor : task.executorAddress = w.localAddress) :
    scaleInMetadataGate (w.fenceOf task) = .ok (w.localGate task.epoch) := by
  have hsource : (w.fenceOf task).source = some (w.identity task.epoch task.executorAddress) := by
    cases task with
    | migrate => rfl
    | delete => cases hphase
  unfold scaleInMetadataGate
  rw [hsource, phase_fenceOf, hphase, batchEpoch_fenceOf, hexecutor]
  rfl

theorem admissionGate_fenceOf (hexecutor : task.executorAddress = w.localAddress) :
    admissionGate (w.fenceOf task) =
      .ok (if task.phase = .scaleIn then w.localGate task.epoch else []) := by
  unfold admissionGate
  rw [phase_fenceOf]
  split
  · rename_i hphase
    exact scaleInMetadataGate_fenceOf hphase hexecutor
  · rfl

/-- The table after a task was booked and its window opened. -/
structure Opened (w : WorkerSetup) (task : TopologyTask) (gate : Bytes)
    (x x' : TopologyTaskExecutor) : Prop where
  touches : Touches (w.operation task) x x'
  booked : Booked w x → Booked w x'
  tokens : x'.tokens = x.tokens
  entry : ∃ state, x'.operations.find? (w.operation task) = some state ∧ state.task = task ∧
    state.cancellation = none ∧ (gate ≠ [] → state.scaleInMetadataGate = gate)

theorem find?_bookOperation_self (task) (gate) :
    (x.bookOperation o task gate).operations.find? o = some
      { (x.operations.find? o).getD { task := task } with
        task := task
        scaleInMetadataGate := if gate = [] then
          ((x.operations.find? o).getD { task := task }).scaleInMetadataGate else gate } := by
  show (x.operations.alter o _).find? o = _
  rw [find?_alter, if_pos rfl]

theorem find?_bookOperation_of_ne (task) (gate) (hne : op ≠ o) :
    (x.bookOperation o task gate).operations.find? op = x.operations.find? op := by
  show (x.operations.alter o _).find? op = _
  rw [find?_alter, if_neg hne]

theorem Booked.bookOperation (h : Booked w x) (htask : Admissible w x task) (hstarted : x.started)
    (hgate : gate = [] ∨ gate = w.localGate x.currentEpoch) :
    Booked w (x.bookOperation (w.operation task) task gate) where
  inFlight := by
    show x.inFlightOperations = (x.operations.alter _ _).sumBy _
    rw [alter_eq_insert, h.inFlight]
    refine (sumBy_insert_of_eq ?_).symm
    cases hfind : x.operations.find? (w.operation task) with
    | none => rfl
    | some => rfl
  entry := by
    intro op state hfind
    by_cases hop : op = w.operation task
    · subst hop
      rw [find?_bookOperation_self] at hfind
      cases hfind
      refine ⟨rfl, htask.current, htask.positive, htask.executor, ?_⟩
      split
      · cases hold : x.operations.find? (w.operation task) with
        | none => exact .inl rfl
        | some old => exact (h.entry _ old hold).gate
      · rename_i hne
        exact .inr (hgate.resolve_left hne)
    · rw [find?_bookOperation_of_ne task gate hop] at hfind
      exact h.entry op state hfind
  scheduled := by
    intro op hscheduled
    by_cases hop : op = w.operation task
    · subst hop
      rw [find?_bookOperation_self]
      rfl
    · rw [find?_bookOperation_of_ne task gate hop]
      exact h.scheduled op hscheduled
  waiting := by
    intro g op hwaiting
    obtain ⟨state, hfind, hstate, hne⟩ := h.waiting g op hwaiting
    by_cases hop : op = w.operation task
    · subst hop
      rw [find?_bookOperation_self]
      refine ⟨_, rfl, ?_, hne⟩
      rw [hfind]
      split
      · exact hstate
      · rename_i hgated
        have hlocal := (h.entry _ state hfind).gate.resolve_left (hstate ▸ hne)
        rw [← hstate, hlocal]
        exact hgate.resolve_left hgated
    · rw [find?_bookOperation_of_ne task gate hop]
      exact ⟨state, hfind, hstate, hne⟩
  stopped := fun hs => by
    have hrun : x.started = false := hs
    rw [hstarted] at hrun
    cases hrun

theorem touches_bookOperation (task) (gate) : Touches o x (x.bookOperation o task gate) :=
  ⟨rfl, rfl, le_refl _, fun hne => by rw [find?_bookOperation_of_ne task gate hne]⟩

theorem validateCallbackWindow_fst (options) (fence) (now : Nat) :
    ∃ ordinary failure, (x.validateCallbackWindow options fence now).1 =
      { x with ordinaryDeadlineByMember := ordinary, failureDeadlineByEpoch := failure } := by
  unfold validateCallbackWindow
  split
  · exact ⟨x.ordinaryDeadlineByMember, _, rfl⟩
  · exact ⟨_, x.failureDeadlineByEpoch, rfl⟩

theorem opened_of_tokenless (htask : Admissible w x task) (hstarted : x.started)
    (hgate : gate = [] ∨ gate = w.localGate x.currentEpoch)
    (htoken : x.ownsToken (w.operation task) = false) (options) (fence) (now : Nat) :
    Opened w task gate x ((x.bookOperation (w.operation task) task gate).validateCallbackWindow
      options fence now).1 := by
  obtain ⟨_, _, hwin⟩ := validateCallbackWindow_fst
    (x := x.bookOperation (w.operation task) task gate) options fence now
  have hbook := touches_bookOperation (x := x) (o := w.operation task) task gate
  rw [hwin]
  refine ⟨⟨hbook.started, hbook.currentEpoch, hbook.tokens, hbook.held⟩,
    fun h => (h.bookOperation htask hstarted hgate).congr rfl rfl (Finset.Subset.refl _) rfl rfl id,
    rfl, ?_⟩
  refine ⟨_, find?_bookOperation_self task gate, rfl, ?_, fun hne => ?_⟩
  · cases hfind : x.operations.find? (w.operation task) with
    | none => rfl
    | some state =>
      rw [ownsToken, hfind, any_some] at htoken
      show state.cancellation = none
      exact not_isSome_iff_eq_none.mp (by rw [htoken]; exact Bool.false_ne_true)
  · dsimp only
    rw [if_neg hne]

theorem Works.clearOperationSchedule : Works w o x (x.clearOperationSchedule o) := by
  have hmodify : Works w o x (x.modifyOperation o ({ · with nextAttempt := 0 })) :=
    .modifyOperation fun _ => ⟨rfl, rfl, rfl⟩
  obtain ⟨⟨hstarted, hepoch, htok, hheld⟩, -, hkeeps, hfree⟩ := hmodify
  exact ⟨⟨hstarted, hepoch, htok, hheld⟩, Booked.clearOperationSchedule, hkeeps, hfree⟩

theorem Works.exhaustWindow (options) (phase) (now draw : Nat) :
    Works w o x (x.exhaustWindow options phase o now draw) := by
  unfold TopologyTaskExecutor.exhaustWindow
  have hcounts : Works w o x (x.modifyOperation o fun state =>
      { state with attempts := state.attempts + 1 }) := .modifyOperation fun _ => ⟨rfl, rfl, rfl⟩
  refine hcounts.trans ?_
  dsimp only
  cases hretry : (x.modifyOperation o fun state =>
      { state with attempts := state.attempts + 1 }).scheduleRetry options phase o now draw with
  | none => exact .clearOperationSchedule
  | some x' => exact .scheduleRetry hretry

/-- An admission that ends without a token. -/
theorem Opened.admission {result} (hopened : Opened w task gate x x')
    (htoken : x.ownsToken (w.operation task) = false) (hworks : Works w (w.operation task) x' x'')
    (hresult : ∀ token, result ≠ .ok (some token)) :
    Admission w task allowDataDrain x x'' result where
  touches := hopened.touches.trans hworks.touches
  booked h := hworks.booked (hopened.booked h)
  keeps state'' hfind := by
    obtain ⟨_, hfind', htask⟩ := hworks.keeps state'' hfind
    obtain ⟨_, hopen, htask', -, -⟩ := hopened.entry
    cases hfind'.symm.trans hopen
    exact .inl (htask.trans htask')
  owned h := by
    rw [htoken] at h
    cases h
  free _ _ := by
    obtain ⟨_, hopen, -, hnone, -⟩ := hopened.entry
    refine hworks.free ?_
    rw [ownsToken, hopen, any_some, hnone]
    rfl
  granted token h := absurd h (hresult token)

theorem mem_waitingAt_grantToken {g} : op ∈ (x.grantToken phase o gate allowDataDrain).waitingAt g ↔
      op ∈ x.waitingAt g ∨ (phase = .scaleIn ∧ allowDataDrain = false ∧ g = gate ∧ op = o) := by
  unfold waitingAt grantToken
  dsimp only
  split
  · rename_i hmetadata
    rw [find?_alter]
    have hallow : allowDataDrain = false := Bool.eq_false_iff.mpr hmetadata.2
    split
    · rename_i hg
      subst hg
      simp only [getD_some, Finset.mem_insert, hmetadata.1, hallow, true_and]
      exact Or.comm
    · rename_i hg
      exact ⟨.inl, fun h => h.elim id fun h => absurd h.2.2.1 hg⟩
  · rename_i hdata
    refine ⟨.inl, fun h => h.elim id fun h => absurd ⟨h.1, ?_⟩ hdata⟩
    exact Bool.eq_false_iff.mp h.2.1

/-- The entry of an operation that gets the next token. -/
def granted (x : TopologyTaskExecutor) (state : OperationState) : OperationState :=
  { state with
    cancellation := some x.tokens
    nextAttempt := 0
    attempts := state.attempts + 1 }

theorem find?_grantToken (op) : (x.grantToken phase o gate allowDataDrain).operations.find? op =
      (x.operations.find? op).map (only o x.granted op) :=
  find?_modify_only x.operations _ op

/-- A token for a booked operation that has none. -/
theorem Booked.grantToken (h : Booked w x) {state} (allowDataDrain)
    (hfind : x.operations.find? o = some state) (htoken : state.cancellation = none)
    (hgate : phase = .scaleIn → gate ≠ [] ∧ state.scaleInMetadataGate = gate) :
    Booked w (x.grantToken phase o gate allowDataDrain) := by
  refine h.map find?_grantToken id rfl ?_ (only_keeps fun _ => ⟨rfl, .inl rfl⟩)
    (fun op hop => .inl (Finset.mem_of_mem_erase hop)) fun g op hop => ?_
  · have hsum := sumBy_insert x.operations o (x.granted state) OperationState.inFlight
    have hold : (some state).elim 0 OperationState.inFlight = 0 := by
      rw [elim_some, OperationState.inFlight, htoken]
      rfl
    rw [hfind, hold, ← h.inFlight] at hsum
    show x.inFlightOperations + 1 = (x.operations.modify o _).sumBy _
    rw [OrderedMap.modify, hfind]
    exact hsum.symm
  · rcases mem_waitingAt_grantToken.mp hop with hold | ⟨hphase, -, rfl, rfl⟩
    · exact .inl hold
    · exact .inr ⟨state, hfind, (hgate hphase).2, (hgate hphase).1⟩

theorem Opened.admitInWindow (allowDataDrain) (hopened : Opened w task gate x x')
    (htoken : x.ownsToken (w.operation task) = false) (hgate : task.phase = .scaleIn → gate ≠ [])
    (hstarted : x.started) (options) (now : Nat) :
    Admission w task allowDataDrain x
      (x'.admitInWindow options task.phase (w.operation task) gate allowDataDrain now).1
      (x'.admitInWindow options task.phase (w.operation task) gate allowDataDrain now).2 := by
  obtain ⟨state, hfind, htask, hnone, hstate⟩ := hopened.entry
  unfold TopologyTaskExecutor.admitInWindow
  rw [hfind, any_some]
  split
  · exact hopened.admission htoken (.scheduleOperation now (isSome_of_mem hfind)) nofun
  · rename_i hready
    split
    · have hgrant :
          (x'.grantToken task.phase (w.operation task) gate allowDataDrain).operations.find?
          (w.operation task) = some (x'.granted state) := by
        rw [find?_grantToken, map_only, hfind]
        rfl
      have htouches : Touches (w.operation task) x'
          (x'.grantToken task.phase (w.operation task) gate allowDataDrain) :=
        .of_only rfl rfl (Nat.le_succ _) find?_grantToken
      refine ⟨hopened.touches.trans htouches, fun h => ?_, ?_, ?_,
        fun h => absurd rfl (h x'.tokens), ?_⟩
      · exact (hopened.booked h).grantToken allowDataDrain hfind hnone
          fun hp => ⟨hgate hp, hstate (hgate hp)⟩
      · intro state' hstates'
        rw [hgrant] at hstates'
        cases hstates'
        exact .inl htask
      · intro howns
        rw [htoken] at howns
        cases howns
      · intro token htok'
        cases htok'
        refine ⟨hstarted, hopened.tokens, Nat.lt_succ_self _, _, hgrant, rfl, htask,
          fun hallow => ?_⟩
        show state.scaleInMetadataDone = false
        exact Bool.eq_false_iff.mpr fun hdone => hready (by simp [hallow, hdone])
    · exact hopened.admission htoken (.refl w _ x') nofun

theorem Admission.refl {result} (hresult : ∀ token, result ≠ .ok (some token)) :
    Admission w task allowDataDrain x x result where
  touches := .refl _ x
  booked := id
  keeps state hfind := .inr ⟨state, hfind, rfl⟩
  owned _ := ⟨rfl, hresult⟩
  free _ h := h
  granted token h := absurd h (hresult token)

theorem admission_admitBooked (allowDataDrain : Bool)
    (htask : Admissible w x task) (hstarted : x.started)
    (hgate : gate = [] ∨ gate = w.localGate x.currentEpoch)
    (hscaleIn : task.phase = .scaleIn → gate ≠ [])
    (htoken : x.ownsToken (w.operation task) = false) (options : TopologyTaskExecutorOptions)
    (now draw : Nat) :
    Admission w task allowDataDrain x
      (x.admitBooked options task (w.fenceOf task) (w.operation task) gate allowDataDrain
        now draw).1
      (x.admitBooked options task (w.fenceOf task) (w.operation task) gate allowDataDrain now
        draw).2 := by
  have hopened := opened_of_tokenless htask hstarted hgate htoken options (w.fenceOf task) now
  unfold admitBooked
  rw [phase_fenceOf]
  split
  · rename_i opened _ heq
    rw [heq] at hopened
    exact hopened.admission htoken (.exhaustWindow options _ now draw) nofun
  · rename_i opened _ heq
    rw [heq] at hopened
    exact hopened.admitInWindow allowDataDrain htoken hscaleIn hstarted options now

theorem admission_admitCallback (allowDataDrain) (htask : Admissible w x task) (options)
    (now draw : Nat) :
    Admission w task allowDataDrain x
      (x.admitCallback options task (w.fenceOf task) (w.operation task) allowDataDrain now draw).1
      (x.admitCallback options task (w.fenceOf task) (w.operation task) allowDataDrain now
        draw).2 := by
  unfold admitCallback
  split
  · exact .refl nofun
  · rename_i hrun
    split
    · exact .refl nofun
    · rename_i htoken
      rw [admissionGate_fenceOf htask.executor, htask.current]
      have hstarted : x.started := by
        by_contra hstopped
        exact hrun (.inl hstopped)
      refine admission_admitBooked allowDataDrain htask hstarted ?_ ?_
        (Bool.eq_false_iff.mpr htoken) options now draw
      · split
        · exact .inr rfl
        · exact .inl rfl
      · intro hphase
        rw [if_pos hphase]
        exact w.localGate_ne_nil _

theorem admission_submitCallback (allowDataDrain) (htask : Admissible w x task) (options)
    (now draw : Nat) (enqueue) :
    Admission w task allowDataDrain x
      (x.submitCallback options task (w.fenceOf task) (w.operation task) allowDataDrain now draw
        enqueue).1
      (x.submitCallback options task (w.fenceOf task) (w.operation task) allowDataDrain now draw
        enqueue).2 := by
  have hadmitted := admission_admitCallback allowDataDrain htask options now draw
  unfold submitCallback
  split
  · exact .refl nofun
  · split
    · rename_i admitted token error heq
      rw [heq] at hadmitted
      -- the pool refused the work item: the token is given back
      have hworks : Works w (w.operation task) admitted
          ((admitted.releaseInFlight (w.operation task)).retryOrErase options true
            (w.fenceOf task).phase (w.operation task) now draw) :=
        Works.releaseInFlight.trans (.retryOrErase options true _ now draw)
      refine ⟨hadmitted.touches.trans hworks.touches, fun h => hworks.booked (hadmitted.booked h),
        ?_, ?_, fun _ _ => ?_, nofun⟩
      · intro state'' hfind
        obtain ⟨_, hfind', htask'⟩ := hworks.keeps state'' hfind
        obtain ⟨_, hgranted, -, hsame, -⟩ := (hadmitted.granted token rfl).2.2.2
        cases hfind'.symm.trans hgranted
        exact .inl (htask'.trans hsame)
      · intro howns
        exact absurd rfl ((hadmitted.owned howns).2 token)
      · exact (Works.retryOrErase (w := w) options true _ now draw).free ownsToken_releaseInFlight
    · exact hadmitted

end

end TopologyTaskExecutor

end Datasystem.Cluster
