import Datasystem.Cluster.ExecutorAdmission
import Datasystem.Lib.StateMachine

/-! One step of an admitted callback. A flight works on its own operation, which it
holds until it is over; it marks progress only after it read the stored task and the
committed topology and found its fence valid on them. -/

namespace Datasystem.Cluster

open Common Lib Checked TopologyTaskExecutor TopologyRepository ExecutorSystem
open StateMachine (Reaches)

/-! ## Evidence and marks -/

/-- The fence of the task on the topology, both as they were read. -/
def FenceEvidence.Shows (w : WorkerSetup) (fence : TopologyExecutionFence) (e : FenceEvidence) :
    Prop :=
  buildExecutionFence w.sha256 w.localAddress e.task fence.phase e.topology = .ok fence

/-- A mark is only written on a task of the fence's executor with the fence's unfinished ranges. -/
def ProgressMark.FitsStored (m : ProgressMark) : Prop :=
  m.written → ∃ task, decodeTask m.fence.taskKind m.fence.taskId m.fence.batchType
      m.fence.batchEpoch (storedTask m.stored) = .ok task ∧
    task.executorAddress = m.fence.executor.address ∧ task.unfinishedRanges = m.fence.ranges

/-- A state that the run went through on its way to `now`. -/
def Past (w : WorkerSetup) (now s : ExecutorSystem) : Prop :=
  Reaches (step w) {} s ∧ Reaches (step w) s now

/-- The flight of a token stands at a stage. -/
def ExecutorSystem.FlightAt (s : ExecutorSystem) (token : Nat) (fence : TopologyExecutionFence)
    (stage : FlightStage) : Prop :=
  ∃ f, s.flights.find? token = some f ∧ f.fence = fence ∧ f.stage = stage

/-- While its completion was handled, a flight read the task that was stored. -/
def TaskRead (w : WorkerSetup) (now : ExecutorSystem) (token : Nat)
    (fence : TopologyExecutionFence) (completion : CallbackCompletion) (task : TopologyTask) :
    Prop :=
  ∃ s, Past w now s ∧ s.FlightAt token fence (.revalidate completion .readTask) ∧
    s.readTaskOf fence = .ok task

/-- Then it read the topology that was committed, and the two gave its fence again. -/
def Revalidated (w : WorkerSetup) (now : ExecutorSystem) (token : Nat)
    (fence : TopologyExecutionFence) (e : FenceEvidence) : Prop :=
  ∃ s completion, Past w now s ∧ TaskRead w s token fence completion e.task ∧
    s.FlightAt token fence (.revalidate completion (.readTopology e.task)) ∧
    s.authority = some e.topology ∧ e.Shows w fence

/-- The completion of a flight marks its task after it found its fence valid. -/
def ProgressMark.OfCompletion (w : WorkerSetup) (now : ExecutorSystem) (token : Nat)
    (m : ProgressMark) : Prop :=
  ∃ s status e answers, Past w now s ∧ Revalidated w s token m.fence e ∧
    s.FlightAt token m.fence (.progress status (some e) .mark) ∧
    m = s.progressMark m.fence (some token) answers

section

variable {fence : TopologyExecutionFence} {w : WorkerSetup} {now now' s : ExecutorSystem}
  {token : Nat}

theorem Past.later (h : Past w now s) (hnow : Reaches (step w) now now') : Past w now' s :=
  ⟨h.1, h.2.trans hnow⟩

theorem TaskRead.later {completion} {task} (h : TaskRead w now token fence completion task)
    (hnow : Reaches (step w) now now') : TaskRead w now' token fence completion task := by
  obtain ⟨s, hpast, hread⟩ := h
  exact ⟨s, hpast.later hnow, hread⟩

theorem Revalidated.later {e} (h : Revalidated w now token fence e)
    (hnow : Reaches (step w) now now') : Revalidated w now' token fence e := by
  obtain ⟨s, completion, hpast, hread⟩ := h
  exact ⟨s, completion, hpast.later hnow, hread⟩

theorem ProgressMark.OfCompletion.later {m : ProgressMark} (h : m.OfCompletion w now token)
    (hnow : Reaches (step w) now now') : m.OfCompletion w now' token := by
  obtain ⟨s, status, e, answers, hpast, hmade⟩ := h
  exact ⟨s, status, e, answers, hpast.later hnow, hmade⟩

theorem callRead_eq_ok {α : Type} {answers} {value} {a : α}
    (h : callRead answers value = .ok a) : value = .ok a := by
  unfold callRead at h
  split at h
  · exact h
  · cases h

/-- The first read of `ValidateFence` finds the stored task. -/
theorem readTaskOf_of_stepCheck {check check' : FenceCheck} {answers : Answers}
    (h : s.stepCheck w fence check answers = .inl check') :
    check = .readTask ∧ ∃ task, check' = .readTopology task ∧ s.readTaskOf fence = .ok task := by
  cases check with
  | readTask =>
    unfold stepCheck at h
    dsimp only at h
    split at h
    · cases h
    · rename_i task hread
      exact ⟨rfl, task, (Sum.inl.inj h).symm, callRead_eq_ok hread⟩
  | readTopology => cases h

/-- The second one finds the committed topology, on which the task has the fence. -/
theorem shows_of_stepCheck {check : FenceCheck} {answers : Answers} {e : FenceEvidence}
    (h : s.stepCheck w fence check answers = .inr (.ok e)) :
    check = .readTopology e.task ∧ s.authority = some e.topology ∧ e.Shows w fence := by
  cases check with
  | readTask =>
    unfold stepCheck at h
    dsimp only at h
    split at h <;> cases h
  | readTopology task =>
    have hcheck : s.checkTopology w fence task answers = .ok e := Sum.inr.inj h
    unfold checkTopology at hcheck
    simp only [bind_eq_ok, pure_eq_ok] at hcheck
    obtain ⟨topology, hread, _, hvalid, rfl⟩ := hcheck
    obtain ⟨_, hobserved, hsame⟩ := bind_eq_ok.mp hvalid
    rw [← check_eq_ok.mp hsame] at hobserved
    have hauthority := callRead_eq_ok hread
    unfold readTopology at hauthority
    split at hauthority
    · cases hauthority
    · rename_i committed hcommitted
      exact ⟨rfl, hcommitted.trans (congrArg some (Except.ok.inj hauthority)), hobserved⟩

/-- A swap that changed its table wrote what the process function asked for. -/
theorem exists_of_callCas_ne {ν ρ : Type} {answers : Answers} {table : OrderedMap Bytes ν}
    {key : Bytes} {process : Option ν → Result (Option ν × ρ)}
    (h : (callCas answers table key process).1 ≠ table) :
    ∃ next r, process (table.find? key) = .ok (some next, r) := by
  have hcas : (cas table key process).1 ≠ table := by
    intro heq
    apply h
    unfold callCas
    split
    · exact heq
    · split
      · exact heq
      · rfl
  unfold cas at hcas
  split at hcas
  · exact absurd rfl hcas
  · exact absurd rfl hcas
  · rename_i next r hprocess
    exact ⟨next, r, hprocess⟩

/-- What `MarkTaskScopeFinished` writes on. -/
theorem markTaskProcess_eq_some {current} {next} {outcome}
    (h : markTaskProcess fence current = .ok (some next, outcome)) :
    ∃ task, decodeTask fence.taskKind fence.taskId fence.batchType fence.batchEpoch
        (storedTask current) = .ok task ∧
      task.executorAddress = fence.executor.address ∧ task.unfinishedRanges = fence.ranges := by
  obtain ⟨task, htask, h⟩ := bind_eq_ok.mp h
  obtain ⟨⟨_, result⟩, happly, h⟩ := bind_eq_ok.mp h
  refine ⟨task, htask, ?_⟩
  unfold applyFenceToTask at happly
  simp only [bind_eq_ok, check_eq_ok, exists_const] at happly
  obtain ⟨-, ⟨-, -, hexecutor, -⟩, happly⟩ := happly
  refine ⟨hexecutor, ?_⟩
  have hupdated : result = .updated := by
    by_contra hne
    simp only [hne, if_false] at h
    cases h
  split at happly
  · cases happly
    split at hupdated <;> cases hupdated
  · split at happly
    · cases happly
      cases hupdated
    · rename_i hranges
      exact not_not.mp hranges

theorem fitsStored_progressMark (completion) (answers) :
    (s.progressMark fence completion answers).FitsStored := by
  intro hwritten
  obtain ⟨_, _, hprocess⟩ := exists_of_callCas_ne (of_decide_eq_true hwritten)
  exact markTaskProcess_eq_some hprocess

end

/-! ## Steps of `CompleteProgress` -/

structure ProgressStep (w : WorkerSetup) (fence : TopologyExecutionFence) (operation : Bytes)
    (completion : Option Nat) (stage : ProgressStage) (s s' : ExecutorSystem)
    (next : Option ProgressStage) : Prop where
  frame : s' = { s with executor := s'.executor, tasks := s'.tasks, progress := s'.progress }
  works : Works w operation s.executor s'.executor
  held : next.isSome → (s'.executor.operations.find? operation).map OperationState.held =
    (s.executor.operations.find? operation).map OperationState.held
  progress : ∀ m ∈ s'.progress, m ∈ s.progress ∨
    stage = .mark ∧ ∃ answers, m = s.progressMark fence completion answers

section

variable {w : WorkerSetup} {s : ExecutorSystem} {fence : TopologyExecutionFence} {operation : Bytes}
  {completion : Option Nat} {stage : ProgressStage}

theorem ProgressStep.refl (next) : ProgressStep w fence operation completion stage s s next :=
  ⟨rfl, .refl w operation s.executor, fun _ => rfl, fun _ => .inl⟩

theorem ProgressStep.last {x} (h : Works w operation s.executor x) :
    ProgressStep w fence operation completion stage s { s with executor := x } none :=
  ⟨rfl, h, nofun, fun _ => .inl⟩

theorem progressStep_mark (answers) (next) : ProgressStep w fence operation completion .mark s
      { s with
        tasks := Function.update s.tasks fence.taskKind (s.markTask fence answers).1
        progress := s.progressMark fence completion answers :: s.progress } next where
  frame := rfl
  works := .refl w operation s.executor
  held _ := rfl
  progress := by
    intro m hm
    rcases List.mem_cons.mp hm with rfl | hm
    · exact .inr ⟨rfl, answers, rfl⟩
    · exact .inl hm

theorem progressStep_stepProgress (status) (answers) :
    ProgressStep w fence operation completion stage s
      (s.stepProgress w fence operation completion status stage answers).1
      (s.stepProgress w fence operation completion status stage answers).2 := by
  unfold stepProgress
  cases stage with
  | enter =>
    dsimp only
    split
    · exact .refl none
    · rename_i x hx
      exact ⟨rfl, .beginProgress hx, fun _ => held_beginProgress hx, fun _ => .inl⟩
  | mark => exact progressStep_mark answers _
  | readBack =>
    dsimp only
    split <;> exact .refl _
  | finish | stale => exact .last .eraseOperation
  | fail => exact .last (.completeFailure _ _ _ _ _ _)

end

/-! ## Flights -/

/-- What the next stage of a flight relies on. -/
def FlightStage.Sound (w : WorkerSetup) (now : ExecutorSystem) (token : Nat)
    (fence : TopologyExecutionFence) : FlightStage → Prop
  | .running dataDrain _ => dataDrain → fence.phase = .scaleIn
  | .submit completion | .queued completion =>
    completion.preparedCleanup → fence.phase = .scaleIn
  | .authorize _ _ | .authorizeCleanup _ | .submitCleanup _ => fence.phase = .scaleIn
  | .revalidate completion (.readTopology task) => TaskRead w now token fence completion task
  | .drainReady _ evidence => Revalidated w now token fence evidence
  | .progress _ evidence _ => ∃ e ∈ evidence, Revalidated w now token fence e
  | _ => True

/-- While the executor runs, a flight holds the token of its operation. -/
structure FlightSound (w : WorkerSetup) (now : ExecutorSystem) (x : TopologyTaskExecutor)
    (token : Nat) (f : Flight) : Prop where
  fresh : token < x.tokens
  named : f.operation = operationOf w.sha256 f.fence
  stage : f.stage.Sound w now token f.fence
  holds : x.started → ∃ state, x.operations.find? f.operation = some state ∧
    state.cancellation = some token ∧ f.fence = w.fenceOf state.task

/-- What a step of a flight may change, and what its next stage can rely on. -/
structure FlightStep (w : WorkerSetup) (now : ExecutorSystem) (token : Nat) (f : Flight)
    (s s' : ExecutorSystem) (next : Option FlightStage) : Prop where
  run : s'.run = s.run
  flights : s'.flights = s.flights
  snapshot : s'.snapshot = s.snapshot
  touches : Touches f.operation s.executor s'.executor
  booked : Booked w s.executor → Booked w s'.executor
  sound : ∀ stage, next = some stage → stage.Sound w now token f.fence
  held : next.isSome → (s'.executor.operations.find? f.operation).map OperationState.held =
    (s.executor.operations.find? f.operation).map OperationState.held
  progress : ∀ m ∈ s'.progress, m ∈ s.progress ∨ m.OfCompletion w now token ∧
    ∃ answers, m = s.progressMark f.fence (some token) answers

section

variable {w : WorkerSetup} {now : ExecutorSystem} {token : Nat} {f : Flight} {s : ExecutorSystem}

theorem FlightStage.Sound.later {fence} {stage : FlightStage} {now'}
    (h : stage.Sound w now token fence) (hnow : Reaches (step w) now now') :
    stage.Sound w now' token fence := by
  cases stage with
  | revalidate completion check =>
    cases check with
    | readTask => trivial
    | readTopology => exact TaskRead.later h hnow
  | drainReady => exact Revalidated.later h hnow
  | progress =>
    obtain ⟨e, he, hshown⟩ := h
    exact ⟨e, he, hshown.later hnow⟩
  | _ => exact h

theorem FlightSound.later {x} {now'} (h : FlightSound w now x token f)
    (hnow : Reaches (step w) now now') : FlightSound w now' x token f :=
  { h with stage := h.stage.later hnow }

/-- The flight goes on, with nothing changed but the records of markers and drains. -/
theorem FlightStep.same {s'} {stage} (hsound : stage.Sound w now token f.fence)
    (hframe : s' = { s with markers := s'.markers, marked := s'.marked, drains := s'.drains }) :
    FlightStep w now token f s s' (some stage) := by
  rw [hframe]
  refine ⟨rfl, rfl, rfl, .refl _ _, id, fun stage' h => ?_, fun _ => rfl, fun _ => .inl⟩
  cases h
  exact hsound

theorem FlightStep.last {x} (h : Works w f.operation s.executor x) :
    FlightStep w now token f s { s with executor := x } none where
  run := rfl
  flights := rfl
  snapshot := rfl
  touches := h.touches
  booked := h.booked
  sound _ hnext := by cases hnext
  held hnext := by cases hnext
  progress _ := .inl

theorem FlightStep.over : FlightStep w now token f s s none := .last (.refl w _ _)

variable {status : Result Unit} {evidence : Option FenceEvidence}
  {completion : CallbackCompletion} {source : MemberIdentity}

theorem sound_settleStatus
    (h : f.fence.phase = .scaleIn ∨ ∃ e ∈ evidence, Revalidated w now token f.fence e)
    (hok : status.isOk → ∃ e ∈ evidence, Revalidated w now token f.fence e) :
    (settleStatus f.fence status evidence).Sound w now token f.fence := by
  unfold settleStatus
  split
  · exact hok rfl
  · split
    · rename_i hfailed
      refine h.resolve_left fun hscaleIn => ?_
      rw [hscaleIn] at hfailed
      cases hfailed
    · trivial

/-- The fence could not be authorized. Only ScaleIn callbacks prepare a cleanup. -/
theorem FlightStep.refused (status) (hphase : f.fence.phase = .scaleIn) :
    FlightStep w now token f s s (some (settleStatus f.fence (.error status) none)) :=
  .same (sound_settleStatus (.inl hphase) nofun) rfl

theorem FlightStep.settled {evidence} (h : Revalidated w now token f.fence evidence) :
    FlightStep w now token f s s (some (settleStatus f.fence status (some evidence))) :=
  .same (sound_settleStatus (.inr ⟨evidence, rfl, h⟩) fun _ => ⟨evidence, rfl, h⟩) rfl

theorem flightStep_handleCompletion (hnamed : f.operation = operationOf w.sha256 f.fence)
    (hsound : completion.preparedCleanup → f.fence.phase = .scaleIn) (answers) :
    FlightStep w now token f s (s.handleCompletion w f completion answers).1
      (s.handleCompletion w f completion answers).2 := by
  unfold handleCompletion
  rw [if_neg (not_not.mpr hnamed)]
  split
  · rename_i x hx
    exact .last (.discardIfStopping hx)
  · split
    · rename_i hprepared
      split
      · exact .refused _ (hsound hprepared.2)
      · exact .same (hsound hprepared.2) rfl
    · exact .same trivial rfl

theorem flightStep_afterRevalidation {evidence} (h : Revalidated w now token f.fence evidence) :
    FlightStep w now token f s s (some (afterRevalidation f completion evidence)) := by
  unfold afterRevalidation
  split
  · exact .same h rfl
  · exact .settled h

theorem flightStep_markMetadata (record) (key) (answers) :
    FlightStep w now token f s (s.markMetadata record key answers).1
      (s.markMetadata record key answers).2 := by
  unfold markMetadata
  dsimp only
  split
  · exact .same trivial rfl
  · split <;> exact .same trivial rfl

theorem FlightSound.gate (h : FlightSound w now s.executor token f)
    (hbooked : Booked w s.executor) (hstarted : s.executor.started) {gate}
    (hgate : scaleInMetadataGate f.fence = .ok gate) :
    gate = w.localGate s.executor.currentEpoch := by
  obtain ⟨state, hfind, -, hfence⟩ := h.holds hstarted
  have hentry := hbooked.entry _ state hfind
  have hphase : state.task.phase = .scaleIn := by
    unfold scaleInMetadataGate at hgate
    split at hgate
    · cases hgate
    · obtain ⟨_, hphase, -⟩ := bind_eq_ok.mp hgate
      rw [← phase_fenceOf w, ← hfence]
      exact check_eq_ok.mp hphase
  rw [hfence, scaleInMetadataGate_fenceOf hphase hentry.executor, hentry.current] at hgate
  exact (Except.ok.inj hgate).symm

theorem flightStep_finishMetadata (h : FlightSound w now s.executor token f) {gate}
    (hgate : scaleInMetadataGate f.fence = .ok gate) (time : Nat) :
    FlightStep w now token f s
      { s with executor := s.executor.finishMetadata w.options gate f.operation time } none := by
  refine ⟨rfl, rfl, rfl, touches_finishMetadata _ _ _, fun hbooked => ?_,
    fun _ hnext => (by cases hnext), fun hnext => (by cases hnext), fun _ => .inl⟩
  cases hstarted : s.executor.started with
  | true =>
    rw [h.gate hbooked hstarted hgate]
    exact hbooked.finishMetadata _ _
  | false =>
    -- after a stop nothing is booked
    unfold finishMetadata
    rw [hbooked.stopped hstarted]
    exact hbooked

theorem flightStep_stepMetadata (h : FlightSound w now s.executor token f) (source) (stage)
    (answers) :
    FlightStep w now token f s (s.stepMetadata w f source stage answers).1
      (s.stepMetadata w f source stage answers).2 := by
  unfold stepMetadata
  split
  · dsimp only
    split
    · exact .over
    · exact .same trivial rfl
  · exact .same trivial rfl
  · exact flightStep_markMetadata _ _ _
  · exact .same trivial rfl
  · unfold readBackMetadata
    dsimp only
    split <;> exact .same trivial rfl
  · split
    · exact .over
    · rename_i gate hgate
      exact flightStep_finishMetadata h hgate _

/-- The call of `MarkTaskScopeFinished` finds the flight where its two reads have led it. -/
theorem flightStep_stepProgress {stage} {e : FenceEvidence} (hpast : Past w now s)
    (hfind : s.flights.find? token = some f) (hstage : f.stage = .progress status (some e) stage)
    (hshown : Revalidated w s token f.fence e) (answers) :
    FlightStep w now token f s
      (s.stepProgress w f.fence f.operation (some token) status stage answers).1
      ((s.stepProgress w f.fence f.operation (some token) status stage answers).2.map
        (.progress status (some e))) := by
  have h : ProgressStep w f.fence f.operation (some token) stage s _ _ :=
    progressStep_stepProgress status answers
  refine ⟨?_, ?_, ?_, h.works.touches, h.works.booked, fun next hnext => ?_,
    fun hnext => h.held ?_, fun m hm => ?_⟩
  · rw [h.frame]
  · rw [h.frame]
  · rw [h.frame]
  · obtain ⟨_, -, rfl⟩ := Option.map_eq_some_iff.mp hnext
    exact ⟨e, rfl, hshown.later hpast.2⟩
  · rw [Option.isSome_map] at hnext
    exact hnext
  · refine (h.progress m hm).imp_right fun ⟨hmark, answers, hmade⟩ => ⟨?_, answers, hmade⟩
    subst hmark hmade
    exact ⟨s, status, e, answers, hpast, hshown, ⟨f, hfind, rfl, hstage⟩, rfl⟩

theorem flightStep_stepFlight (h : FlightSound w s s.executor token f) (hpast : Past w now s)
    (hfind : s.flights.find? token = some f) (answers) :
    FlightStep w now token f s (s.stepFlight w token f answers).1
      (s.stepFlight w token f answers).2 := by
  have hlater := h.later hpast.2
  have hsound := hlater.stage
  unfold stepFlight
  cases hstage : f.stage with
  | validate check =>
    dsimp only
    split
    · exact .same trivial rfl
    · exact .same nofun rfl
    · exact .same trivial rfl
  | prepare =>
    dsimp only
    split
    · exact .same nofun rfl
    · exact .same trivial rfl
  | invoke => exact .same (fun hdrain => of_decide_eq_true (Bool.and_eq_true_iff.mp hdrain).1) rfl
  | running =>
    rw [hstage] at hsound
    refine .same (fun hprepare => hsound ?_) rfl
    exact (Bool.and_eq_true_iff.mp hprepare).1
  | applyCleanup => exact .same nofun rfl
  | submit =>
    rw [hstage] at hsound
    dsimp only [submitCompletion]
    split
    · exact .same hsound rfl
    · exact .last (.finishCallbackBody _ _ _ _ _)
  | queued =>
    rw [hstage] at hsound
    exact flightStep_handleCompletion h.named hsound answers
  | revalidate completion check =>
    dsimp only
    split
    · rename_i next hcheck
      obtain ⟨rfl, task, rfl, hread⟩ := readTaskOf_of_stepCheck hcheck
      exact .same ⟨s, hpast, ⟨f, hfind, rfl, hstage⟩, hread⟩ rfl
    · exact .same trivial rfl
    · -- the second read: the task comes from the first one, the topology is read in this state
      rename_i evidence hcheck
      obtain ⟨rfl, hauthority, hshows⟩ := shows_of_stepCheck hcheck
      have hread : TaskRead w s token f.fence completion evidence.task := by
        have hstored := h.stage
        rw [hstage] at hstored
        exact hstored
      exact flightStep_afterRevalidation
        ⟨s, completion, hpast, hread, ⟨f, hfind, rfl, hstage⟩, hauthority, hshows⟩
  | drainReady completion evidence =>
    rw [hstage] at hsound
    dsimp only
    split
    · exact .settled hsound
    · exact .same trivial rfl
  | metadata stage =>
    dsimp only
    split
    · exact .over
    · rename_i source hsource
      exact flightStep_stepMetadata hlater source stage answers
  | authorize =>
    rw [hstage] at hsound
    dsimp only
    split
    · exact .same hsound rfl
    · exact .refused _ hsound
    · exact .same hsound rfl
  | authorizeCleanup =>
    rw [hstage] at hsound
    dsimp only
    split
    · exact .refused _ hsound
    · exact .same hsound rfl
  | submitCleanup completion =>
    rw [hstage] at hsound
    dsimp only
    split
    · exact .refused _ hsound
    · exact .same trivial rfl
  | progress =>
    -- told in the state before the step, in which the mark is made
    have hshown := h.stage
    rw [hstage] at hshown
    obtain ⟨e, he, hshown⟩ := hshown
    cases he
    exact flightStep_stepProgress hpast hfind hstage hshown answers
  | fail => exact .last (.completeFailure _ _ _ _ _ _)
  | stale => exact .last .eraseOperation

end

end Datasystem.Cluster
